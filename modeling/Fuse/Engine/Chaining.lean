import Fuse.Core.Relation
import Fuse.Engine.ReadBack

/-!
# Chained servers

A sub-query goes to another Fuse server as the text of `build_remote_sql` and is
read there by `sql_to_subquery`.  The text holds every clause except the
aggregates.
-/

namespace Fuse.Engine

open Foundation Fuse.Core Connectors Parse List

/-! ## Names and doubles -/

def PlainName (name : Str) : Prop :=
  ∃ c w, name = c :: w ∧ isWordStart c = true ∧
    (∀ d ∈ w, isWordPart d = true) ∧ wordToken name = .word { value := name }

theorem nameText_plain {name : Str} (h : PlainName name) :
    NameText name name := by
  obtain ⟨c, w, rfl, hc, hw, htoken⟩ := h
  have hlex := lexes_word hc hw
  rw [htoken] at hlex
  exact ⟨_, hlex, rfl⟩

def ReadsAsDouble [FloatOps] (text : Str) (f : F64) : Prop :=
  (IsFraction text ∧ FloatOps.parse text = some f) ∨
    ∃ digits, text = '-' :: digits ∧ IsFraction digits ∧
    FloatOps.parse digits = some f.neg

/-- The scalars a text keeps: besides the plain ones the doubles that are not
whole numbers. -/
def ChainedScalar [FloatOps] [FloatText] : ScalarValue → Prop
  | .float64 f => ReadsAsDouble (FloatText.display f) f
  | v => PlainScalar v

theorem scalarText_chained [FloatOps] [FloatText] {v : ScalarValue}
    (h : ChainedScalar v) : ScalarText (scalarToSql v) v := by
  cases v with
  | float64 f =>
    rcases h with ⟨htext, hparse⟩ | ⟨digits, htext, hdigits, hparse⟩
    · exact scalarText_fraction htext hparse
    · rw [scalarToSql, htext]
      exact scalarText_negFraction hdigits hparse
  | null | boolean b | int64 n | utf8 s => exact scalarText_plain h

section Chained

variable [Unicode] [FloatOps] [FloatText]

structure Chainable (q : SubQuery) : Prop where
  table : PlainName q.table
  projections : ∀ p ∈ q.projections, PlainName p
  groupBy : ∀ g ∈ q.groupBy, PlainName g
  sort : ∀ s ∈ q.sort, PlainName s.field
  filter : ∀ f ∈ q.filter, FilterLeaves PlainOp PlainName ChainedScalar f
  having : ∀ f ∈ q.having, FilterLeaves PlainOp PlainName ChainedScalar f
  /-- Both fields are `u64`. -/
  limit : ∀ n ∈ q.limit, n < 2 ^ 64
  offset : ∀ n ∈ q.offset, n < 2 ^ 64

variable [SqlParser] {levels : Nat} [StandardSql levels]

theorem buildRemoteSql_read {q : SubQuery} (hq : Chainable q)
    (hshallow : Shallow levels q) :
    sqlToSubquery (Remote.buildRemoteSql q) =
      .ok { q with aggregations := [], passthrough := none } := by
  have hfilter : ∀ f : FilterExpr,
    FilterLeaves PlainOp PlainName ChainedScalar f →
      FilterText (filterToSql Remote.wording f) f := fun f hf =>
    filterText_plain (fun _ => nameText_plain) (fun _ => scalarText_chained) hf
  have hselect : SelectWritten levels q.projections []
    (if q.projections.isEmpty then "*"
        else Str.joinWith ", " q.projections) := by
    by_cases hne : q.projections = []
    · rw [hne]
      exact selectWritten_star
    have hnames : SelectWritten levels q.projections []
        (Str.joinWith ", " (q.projections.map id)) :=
        selectWritten_names hne fun p hp => nameText_plain (hq.projections p hp)
    rw [map_id] at hnames
    rwa [if_neg (by simpa using hne)]
  exact sqlToSubquery_written (w := Remote.wording)
    (q := { q with passthrough := none }) hselect
    (nameText_plain hq.table) ⟨hshallow.filter, hshallow.having⟩
    (fun f hf => hfilter f (hq.filter f hf))
    (fun g hg => nameText_plain (hq.groupBy g hg))
    (fun f hf => hfilter f (hq.having f hf))
    (fun s hs => nameText_plain (hq.sort s hs)) hq.limit hq.offset rfl

theorem chained_rows {C : Type} [DecidableEq C] {q : SubQuery}
    (hq : Chainable q) (hshallow : Shallow levels q)
    (hagg : q.aggregations = []) (E : SelectModel C) :
    ∃ r, sqlToSubquery (Remote.buildRemoteSql q) = .ok r ∧
      ∀ table, E.rows r table = E.rows q table := by
  refine ⟨_, buildRemoteSql_read hq hshallow, fun table => ?_⟩
  have hsame : { q with aggregations := [], passthrough := none } =
      { q with passthrough := none } := by rw [← hagg]
  rw [hsame]
  rfl

end Chained

section Example

attribute [local instance] asciiUnicode integersOnly

/-- Rows in the order they have, with `COUNT` as the only aggregate. -/
def countingModel : SelectModel ScalarValue where
  cells := scalarCells
  columns := ["region".toList]
  aggregate _ members := .int64 (.ofNat members.length)
  order _ rows := rows

theorem plainName_region : PlainName "region" :=
  ⟨'r', "egion".toList, rfl, rfl, all_eq_true.mp rfl, rfl⟩

theorem plainName_sales : PlainName "sales" :=
  ⟨'s', "ales".toList, rfl, rfl, all_eq_true.mp rfl, rfl⟩

def salesOf (region : String) : SubQuery where
  table := "sales"
  projections := ["region".toList]
  filter := some (.comparison "region" .eq (.utf8 region.toList))
  limit := some 10
  offset := some 1

theorem chained_rows_sales :
    letI := standardParser 20
    letI : FloatText := ⟨fun _ => []⟩
    ∃ r, sqlToSubquery (Remote.buildRemoteSql (salesOf "it's")) = .ok r ∧
      ∀ table, countingModel.rows r table =
        countingModel.rows (salesOf "it's") table := by
  let := standardParser 20
  let _ : FloatText := ⟨fun _ => []⟩
  have := standardParser_standard 20
  exact chained_rows (q := salesOf "it's") {
    table := plainName_sales
    projections := by
      intro p hp
      rw [mem_singleton.mp hp]
      exact plainName_region
    groupBy := nofun
    sort := nofun
    filter := by
      rintro f ⟨rfl⟩
      exact ⟨plainName_region, by decide, trivial⟩
    having := nofun
    limit := by rintro n ⟨rfl⟩; decide
    offset := by rintro n ⟨rfl⟩; decide } ⟨by rintro f ⟨rfl⟩; decide, nofun⟩
    rfl countingModel

def salesCount : SubQuery where
  table := "sales"
  projections := ["region".toList]
  aggregations := [⟨.count, none, "n"⟩]
  groupBy := ["region".toList]

theorem aggregates_are_not_sent :
    letI := standardParser 20
    letI : FloatText := ⟨fun _ => []⟩
    let table : List (Str → ScalarValue) := [fun _ => .boolean true]
    ∃ r, sqlToSubquery (Remote.buildRemoteSql salesCount) = .ok r ∧
      countingModel.rows r table = [[.boolean true]] ∧
      countingModel.rows salesCount table = [[.boolean true, .int64 1]] := by
  let := standardParser 20
  let _ : FloatText := ⟨fun _ => []⟩
  have := standardParser_standard 20
  refine ⟨_, buildRemoteSql_read (q := salesCount) {
    table := plainName_sales
    projections := ?_
    groupBy := ?_
    sort := nofun
    filter := nofun
    having := nofun
    limit := nofun
    offset := nofun } ⟨nofun, nofun⟩, by decide, by decide⟩
  all_goals
    intro p hp
    rw [mem_singleton.mp hp]
    exact plainName_region

end Example

end Fuse.Engine
