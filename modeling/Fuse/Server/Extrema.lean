import Fuse.Server.Reaggregate
import Mathlib.Algebra.Order.Field.Rat
import Mathlib.Data.Rat.Cast.Order

/-!
# Aggregates that do not add up

`reaggregate_batches` adds the partial values of a group whatever its
aggregates are.  For `MIN`, `MAX`, `AVG` and `COUNT(DISTINCT)` the sum is the
value over all records only as long as no group has records in two sources.
-/

namespace Fuse.Server

open Foundation Fuse.Core Engine Grouping List Record

section Results

variable {A N V : Type} [AddCommMonoid N] [ArrowKernels V] [FloatOps]

/-! ## Comparing results -/

def Numbers.Distinguishes (X : Numbers N V) : Prop :=
  ∀ a b, X.Exact a → X.Exact b → X.float (X.double a) = X.float (X.double b) →
    a = b

variable {X : Numbers N V} {q : Grouped A N} {schema : Schema}

theorem Numbers.ExactSums.sum {ns : List N} (h : X.ExactSums ns) :
    X.Exact ns.sum := by
  have := h.2 ns.length
  rwa [take_length] at this

theorem Numbers.text_injective (X : Numbers N V) :
    Function.Injective X.text := by
  intro s t h
  rw [← X.display_text s, h, X.display_text]

theorem Grouped.resultRow_inj {n n' : A → N} {k k' : List Str}
    (hlength : k.length = k'.length)
    (h : q.resultRow X n k = q.resultRow X n' k') :
    k = k' ∧ ∀ m ∈ q.items.filterMap Item.aggregate,
      X.float (X.double (n m.2)) = X.float (X.double (n' m.2)) := by
  obtain ⟨hkeys, hnumbers⟩ := append_inj h (by simpa using hlength)
  refine ⟨map_injective_iff.mpr
    ((Option.some_injective V).comp X.text_injective) hkeys, ?_⟩
  intro m hm
  exact Option.some.inj (map_inj_left.mp hnumbers m hm)

theorem Grouped.resultRows_perm_iff (hX : X.Distinguishes)
    {keys : List (List Str)}
    (hwidth : ∀ k ∈ keys, k.length = q.groupCols.length)
    (n n' : List Str → A → N)
    (hexact : ∀ k ∈ keys, ∀ m ∈ q.items.filterMap Item.aggregate,
      X.Exact (n k m.2) ∧ X.Exact (n' k m.2)) :
    (keys.map fun k => q.resultRow X (n k) k).Perm
    (keys.map fun k => q.resultRow X (n' k) k) ↔
      ∀ k ∈ keys, ∀ m ∈ q.items.filterMap Item.aggregate,
      n k m.2 = n' k m.2 := by
  constructor
  · intro hperm k hk m hm
    obtain ⟨k', hk', heq⟩ := mem_map.mp (hperm.mem_iff.mp (mem_map_of_mem hk))
    obtain ⟨rfl, hnumbers⟩ :=
      Grouped.resultRow_inj ((hwidth k' hk').trans (hwidth k hk).symm) heq
    obtain ⟨hn, hn'⟩ := hexact k' hk m hm
    exact (hX _ _ hn' hn (hnumbers m hm)).symm
  · intro hsame
    refine List.Perm.of_eq (map_congr_left fun k hk => ?_)
    unfold Grouped.resultRow
    congr 1
    exact map_congr_left fun m hm => congrArg
      (fun x => some (X.float (X.double x))) (hsame k hk m hm)

variable [Unicode]

/-- The text of a query groups by the columns of `q`, without `HAVING`. -/
structure Grouped.WrittenAs (q : Grouped A N) (query : Str) : Prop where
  groupBy : parseGroupBy query = .ok q.groupCols
  having : parseHaving query = .ok none

omit [AddCommMonoid N] in
theorem mergedResult_grouped (env : Env V) {query : Str} (h : q.WrittenAs query)
    (hgroup : q.groupCols ≠ []) {fed : FederatedResult V}
    (hsources : 1 < fed.datasources.length) : mergedResult env query fed =
      reaggregateBatches env fed.batches q.groupCols := by
  have hnonempty : q.groupCols.isEmpty = false := by simpa using hgroup
  simp only [mergedResult, h.groupBy, h.having, hnonempty, hsources, bind,
    Except.bind, Bool.not_false, decide_true, Bool.and_true, if_true]
  cases reaggregateBatches env fed.batches q.groupCols <;> rfl

/--
Whatever batches the sources answer with, the merged result has for each group
the values over the records of all sources.
-/
def Grouped.ReturnsWhole (X : Numbers N V) (q : Grouped A N) (env : Env V)
    (query : Str) (schema : Schema) (parts : List (List Record)) : Prop :=
  ∀ (answers : List (List (RecordBatch V))) (fed : FederatedResult V),
    fed.batches = answers.flatten → fed.datasources.length = parts.length →
    (∀ b ∈ answers.flatten, b.schema = schema) →
    List.Forall₂ (q.AnsweredBy X) parts (answers.map fun batches =>
      batches.flatMap (·.rows)) →
    ∃ out, mergedResult env query fed = .ok out ∧ (out.flatMap (·.rows)).Perm
        ((parts.flatten.map (key q.groupCols)).dedup.map fun k =>
          q.resultRow X (fun a =>
            q.value a (groupOf (key q.groupCols) k parts.flatten)) k)

def Grouped.ExactPartials (X : Numbers N V) (q : Grouped A N)
    (parts : List (List Record)) : Prop :=
  ∀ k, ∀ m ∈ q.items.filterMap Item.aggregate, X.ExactSums
    (partials (key q.groupCols) (q.value m.2) k parts)

omit [Unicode] in
theorem Grouped.answerRow_fits (X : Numbers N V)
    (hlength : schema.length = q.items.length) (part : List Record) (tag : V)
    (r : Record) : rowFits schema (q.answerRow X part (some tag) r) = true := by
  simp only [rowFits, Bool.and_eq_true, beq_iff_eq, all_eq_true]
  refine ⟨by simp [Grouped.answerRow, hlength], ?_⟩
  rintro ⟨field, cell⟩ hcell
  obtain ⟨item, -, rfl⟩ := mem_map.mp (of_mem_zip hcell).2
  cases item <;> simp

omit [ArrowKernels V] [FloatOps] [Unicode] in
theorem exists_answers_of {answers : List Record → List (Row V) → Prop}
    (h : ∀ part, ∃ rows, (∀ row ∈ rows, rowFits schema row = true) ∧
      answers part rows)
    (parts : List (List Record)) :
    ∃ batches : List (List (RecordBatch V)),
    (∀ b ∈ batches.flatten, b.schema = schema) ∧
      List.Forall₂ answers parts (batches.map fun batches =>
        batches.flatMap (·.rows)) := by
  choose rows hfits hrows using h
  refine ⟨parts.map fun part => [⟨schema, rows part, hfits part⟩],
    by simp +contextual, ?_⟩
  simpa [forall₂_map_right_iff, forall₂_same] using fun part _ => hrows part

omit [Unicode] in
theorem Grouped.exists_answers (X : Numbers N V)
    (layout : Layout schema q.items q.groupCols) (parts : List (List Record)) :
    ∃ answers : List (List (RecordBatch V)),
    (∀ b ∈ answers.flatten, b.schema = schema) ∧
      List.Forall₂ (q.AnsweredBy X) parts
        (answers.map fun batches => batches.flatMap (·.rows)) := by
  refine exists_answers_of (fun part => ?_) parts
  obtain ⟨reps, hreps⟩ := exists_represents (key q.groupCols) part
  refine ⟨_, forall_mem_map.mpr fun r _ => ?_, some (X.text []), reps,
    hreps, rfl⟩
  exact Grouped.answerRow_fits X layout.length part _ r

theorem Grouped.returnsWhole_iff (hX : X.Distinguishes)
    (layout : Layout schema q.items q.groupCols)
    (hgroup : q.groupCols ≠ []) (env : Env V) {query : Str}
    (hquery : q.WrittenAs query)
    {parts : List (List Record)} (htwo : 2 ≤ parts.length)
    (hexact : q.ExactPartials X parts)
    (hwhole : ∀ k ∈ parts.flatten.map (key q.groupCols),
      ∀ m ∈ q.items.filterMap Item.aggregate,
      X.Exact (q.value m.2 (groupOf (key q.groupCols) k parts.flatten))) :
    q.ReturnsWhole X env query schema parts ↔
      ∀ k ∈ parts.flatten.map (key q.groupCols),
        ∀ m ∈ q.items.filterMap Item.aggregate,
          (partials (key q.groupCols) (q.value m.2) k parts).sum = q.value m.2
              (groupOf (key q.groupCols) k parts.flatten) := by
  have hwidth : ∀ k ∈ (parts.flatten.map (key q.groupCols)).dedup,
      k.length = q.groupCols.length := by
    intro k hk
    obtain ⟨r, -, rfl⟩ := mem_map.mp (mem_dedup.mp hk)
    simp [key]
  have hcompare := Grouped.resultRows_perm_iff hX hwidth
    (fun k a => (partials (key q.groupCols) (q.value a) k parts).sum)
    (fun k a => q.value a (groupOf (key q.groupCols) k parts.flatten))
    fun k hk m hm => ⟨(hexact k m hm).sum, hwhole k (mem_dedup.mp hk) m hm⟩
  simp only [mem_dedup] at hcompare
  rw [← hcompare]
  have hmerged : ∀ (answers : List (List (RecordBatch V)))
      (fed : FederatedResult V), fed.batches = answers.flatten →
      fed.datasources.length = parts.length →
      (∀ b ∈ answers.flatten, b.schema = schema) →
      List.Forall₂ (q.AnsweredBy X) parts
      (answers.map fun batches => batches.flatMap (·.rows)) →
      ∃ out, mergedResult env query fed = .ok out ∧
        (out.flatMap (·.rows)).Perm
        ((parts.flatten.map (key q.groupCols)).dedup.map fun k =>
            q.resultRow X (fun a =>
              (partials (key q.groupCols) (q.value a) k parts).sum) k) := by
    intro answers fed hbatches hsources hschema hanswers
    obtain ⟨out, hout, -, hrows⟩ :=
      reaggregate_adds_partials layout env hgroup hschema hanswers hexact
    refine ⟨out, ?_, hrows⟩
    rw [mergedResult_grouped env hquery hgroup (by omega), hbatches, hout]
  constructor
  · intro hreturns
    obtain ⟨answers, hschema, hanswers⟩ := q.exists_answers X layout parts
    let fed : FederatedResult V :=
      ⟨answers.flatten, List.replicate parts.length [], []⟩
    have hlength : fed.datasources.length = parts.length := by simp [fed]
    obtain ⟨out, hout, hrows⟩ :=
      hmerged answers fed rfl hlength hschema hanswers
    obtain ⟨out', hout', hrows'⟩ :=
      hreturns answers fed rfl hlength hschema hanswers
    cases Except.ok.inj (hout.symm.trans hout')
    exact hrows.symm.trans hrows'
  · intro hperm answers fed hbatches hsources hschema hanswers
    obtain ⟨out, hout, hrows⟩ :=
      hmerged answers fed hbatches hsources hschema hanswers
    exact ⟨out, hout, hrows.trans hperm⟩

end Results

section Statistics

/-! ## Minima, maxima, averages and distinct counts -/

inductive Statistic where
  | min (column : Str)
  | max (column : Str)
  | avg (column : Str)
  | countDistinct (column : Str)
  deriving DecidableEq

def Statistic.value : Statistic → List Record → ℚ
  | .min column, records =>
    ((records.map (·.number column)).min?.getD 0 : ℤ)
  | .max column, records =>
    ((records.map (·.number column)).max?.getD 0 : ℤ)
  | .avg column, records =>
    ((records.map (·.number column)).sum : ℤ) / records.length
  | .countDistinct column, records =>
    (records.map (·.number column)).dedup.length

def statistics (groupCols : List Str) (items : List (Item Statistic)) :
    Grouped Statistic ℚ where
  groupCols
  items
  value := Statistic.value

variable {records : List Record}

theorem Statistic.value_ones (a : Statistic) (hne : records ≠ [])
    (h : ∀ r ∈ records, ∀ c, r.number c = 1) : a.value records = 1 := by
  have hlength : records.length ≠ 0 := by simpa using hne
  have hmap : ∀ c, records.map (·.number c) =
      List.replicate records.length 1 := by
    intro c
    exact eq_replicate_iff.mpr ⟨by simp, by
      intro n hn
      obtain ⟨r, hr, rfl⟩ := mem_map.mp hn
      exact h r hr c⟩
  cases a with
  | min c => simp [Statistic.value, hmap, min?_replicate, hlength]
  | max c => simp [Statistic.value, hmap, max?_replicate, hlength]
  | avg c => simp [Statistic.value, hmap, hlength]
  | countDistinct c =>
    simp [Statistic.value, hmap, replicate_dedup hlength]

def renumber (f : Record → Str → ℤ) (parts : List (List Record)) :
    List (List Record) :=
  parts.map fun part => part.map fun r => { r with number := f r }

theorem apart_renumber (groupCols : List Str) (f : Record → Str → ℤ)
    (parts : List (List Record)) :
    Apart (key groupCols) (renumber f parts) ↔ Apart (key groupCols) parts := by
  rw [Apart, renumber, pairwise_map]
  simp only [forall_mem_map]
  exact Iff.rfl

theorem groupOf_ones (groupCols : List Str) (a : Statistic) {k : List Str}
    (hone : ∀ r ∈ records, ∀ c, r.number c = 1)
    (hk : k ∈ records.map (key groupCols)) :
    a.value (groupOf (key groupCols) k records) = 1 := by
  refine a.value_ones ?_ fun r hr => hone r (mem_of_mem_filter hr)
  obtain ⟨r, hr, rfl⟩ := mem_map.mp hk
  exact ne_nil_of_mem (mem_filter.mpr ⟨hr, by simp⟩)

theorem number_ones {parts : List (List Record)} :
    ∀ part ∈ renumber (fun _ _ => 1) parts, ∀ r ∈ part, ∀ c,
    r.number c = 1 := by
  intro part hpart r hr c
  obtain ⟨part', -, rfl⟩ := mem_map.mp hpart
  obtain ⟨r', -, rfl⟩ := mem_map.mp hr
  rfl

theorem partials_ones (groupCols : List Str) (a : Statistic) (k : List Str)
    (parts : List (List Record)) : ∃ n ≤ parts.length,
    partials (key groupCols) a.value k
      (renumber (fun _ _ => 1) parts) = List.replicate n 1 := by
  refine ⟨_, ?_, eq_replicate_iff.mpr ⟨rfl, fun v hv => ?_⟩⟩
  · exact (length_filterMap_le _ _).trans (by simp [renumber])
  · obtain ⟨part, hpart, hvalue⟩ := mem_filterMap.mp hv
    split at hvalue
    · rename_i hk
      cases hvalue
      exact groupOf_ones groupCols a (number_ones part hpart) hk
    · cases hvalue

variable {V : Type} [ArrowKernels V] [FloatOps] [Unicode]

omit [Unicode] in
theorem exactSums_ones {X : Numbers ℚ V} {n : Nat}
    (h : ∀ m : Nat, m ≤ n → X.Exact m) :
    X.ExactSums (List.replicate n 1) := by
  constructor
  · intro x hx
    obtain ⟨hn, rfl⟩ := mem_replicate.mp hx
    exact_mod_cast h 1 (Nat.one_le_iff_ne_zero.mpr hn)
  · intro m
    rw [take_replicate, sum_replicate, nsmul_one]
    exact h _ (Nat.min_le_right _ _)

end Statistics

section Example

attribute [local instance] asciiUnicode wholeDoubles numberCells

def exactRationals : Numbers ℚ Str where
  text := id
  float x := Str.ofInt (BitVec.toInt x)
  cell q := Str.ofInt q.num
  double q := (Int64.ofInt q.num).toBitVec
  Exact q := ∃ n : ℤ, |n| < 2 ^ 53 ∧ q = n
  ofText := exactIntegers.ofText
  ofF64 := exactIntegers.ofF64
  display_text := exactIntegers.display_text
  parse_cell := by
    rintro _ ⟨n, hn, rfl⟩
    exact exactIntegers.parse_cell n hn
  exact_zero := ⟨0, by decide, rfl⟩
  double_zero := rfl
  double_add := by
    rintro _ _ ⟨m, hm, rfl⟩ ⟨n, hn, rfl⟩ ⟨k, hk, heq⟩
    obtain rfl : m + n = k := by exact_mod_cast heq
    rw [← Int.cast_add]
    exact exactIntegers.double_add m n hm hn hk

private theorem exactIntegers_distinguishes : exactIntegers.Distinguishes := by
  intro a b ha hb heq
  have hbound : ∀ n : ℤ, |n| < 2 ^ 53 → (Int64.ofInt n).toInt = n := by
    intro n hn
    have := abs_lt.mp hn
    exact Int64.toInt_ofInt_of_le (by omega) (by omega)
  have hparsed := congrArg Str.parseI64 heq
  change Str.parseI64 (Str.ofInt (Int64.ofInt a).toInt) =
    Str.parseI64 (Str.ofInt (Int64.ofInt b).toInt) at hparsed
  have hrange : ∀ n : ℤ, |n| < 2 ^ 53 → -2 ^ 63 ≤ n ∧ n < 2 ^ 63 := by
    intro n hn
    have := abs_lt.mp hn
    omega
  rw [hbound a ha, hbound b hb, Str.parseI64_ofInt (hrange a ha),
    Str.parseI64_ofInt (hrange b hb)] at hparsed
  rw [← hbound a ha, Option.some.inj hparsed, hbound b hb]

theorem exactRationals_distinguishes : exactRationals.Distinguishes := by
  rintro _ _ ⟨m, hm, rfl⟩ ⟨n, hn, rfl⟩ heq
  exact_mod_cast exactIntegers_distinguishes m n hm hn heq

def largestOrderText : Str :=
  "SELECT customer, MAX(amount) AS top FROM a.t GROUP BY customer" ++
    " UNION ALL " ++
    "SELECT customer, MAX(amount) AS top FROM b.t GROUP BY customer"

def largestOrderSelect (table : Str) : Select :=
  .mk [.unnamedExpr (.identifier { value := "customer" }),
      .exprWithAlias (.function {
        name := [.identifier { value := "MAX" }]
        args := .list none [.expr (.identifier { value := "amount" })] })
        { value := "top" }]
    (fromTable table) none
    (.expressions [.identifier { value := "customer" }]) none

def largestOrderQuery : Query :=
  .mk (.setOperation (.select (largestOrderSelect "a.t"))
    (.select (largestOrderSelect "b.t"))) none none

def largestOrderItems : List (Item Statistic) :=
  [.key "customer", .measure "top" (.max "amount"), .tag]

def largestOrderSchema : Schema :=
  [⟨"customer", .utf8, false⟩, ⟨"top", .int64, true⟩]

def largestOrders : Env Str :=
  { Env.quiet Str with
    execute := fun _ ds _ => .ok [{
      schema := largestOrderSchema
      rows := [[some "ann", some (if ds = "a" then "5" else "7")]]
      fits := by
        intro row hrow
        rw [mem_singleton.mp hrow]
        rfl }] }

def largestOrderNames : Schema := largestOrderSchema ++ [datasourceField]

theorem largestOrderLayout :
    Layout largestOrderNames largestOrderItems ["customer"] where
  names := rfl
  distinct := by decide
  keys := by simp [largestOrderItems]
  measures := measures_of_aggregates (by decide)

def twoCustomers : List (List Record) := [[order "ann" 5], [order "bob" 7]]

end Example

end Fuse.Server
