import Fuse.Core.Filter
import Fuse.Engine.SqlToSubquery

/-!
# What the pushed filter keeps

The meaning of a `WHERE` clause under three-valued logic, and the relation of
the translated filter to it.  `translateExpr` drops what it cannot express:
one side of a conjunction, elements of an `IN` list, the escape character of a
`LIKE`.  Dropping a conjunct widens a condition and dropping a list element
narrows it, so what is safe depends on the number of negations above.
-/

namespace Fuse.Engine

open Foundation Fuse.Core List

/-! ## The meaning of a `WHERE` clause -/

/--
Cells with a meaning for the literals of SQL.  A number that is no `i64` means
what `number` says, whatever the translation makes of its text.
-/
structure SqlModel (C : Type) extends CellModel C where
  number : Str → C
  otherLiteral : Str → C
  negate : C → C
  number_int : ∀ text i,
    Str.parseI64 text = some i → number text = ofScalar (.int64 i)
  negate_int : ∀ i : Int64, i ≠ Int64.minValue →
    negate (ofScalar (.int64 i)) = ofScalar (.int64 (-i))

/-- The meaning of what is not looked into: qualified and nested names,
function calls and all forms without a counterpart in a filter. -/
structure Leaves (C : Type) where
  truth : SqlExpr → Truth
  scalar : SqlExpr → C

section Meaning

variable {C : Type} (M : SqlModel C) (leaves : Leaves C) (row : Str → C)

def SqlModel.literal : Value → C
  | .number text _ => M.number text
  | .singleQuotedString s => M.ofScalar (.utf8 s)
  | .doubleQuotedString s => M.ofScalar (.utf8 s)
  | .boolean b => M.ofScalar (.boolean b)
  | .null => M.ofScalar .null
  | .other text => M.otherLiteral text

def scalarOf : SqlExpr → C
  | .identifier id => row id.value
  | .value v => M.literal v
  | .unaryOp .minus e => M.negate (scalarOf e)
  | .nested e => scalarOf e
  | e => leaves.scalar e

def escapeChars : Option Value → Str
  | some (.singleQuotedString s) => s
  | some (.doubleQuotedString s) => s
  | _ => []

def negatedTruth (negated : Bool) (t : Truth) : Truth :=
  if negated then t.not else t

variable [Unicode]

def whereTruth : SqlExpr → Truth
  | .binaryOp l .and r => (whereTruth l).and (whereTruth r)
  | .binaryOp l .or r => (whereTruth l).or (whereTruth r)
  | .binaryOp l op r =>
    let compare op := M.compare op (scalarOf M leaves row l)
      (scalarOf M leaves row r)
    match op with
    | .eq => compare .eq
    | .notEq => compare .neq
    | .lt => compare .lt
    | .ltEq => compare .lte
    | .gt => compare .gt
    | .gtEq => compare .gte
    | op => leaves.truth (.binaryOp l op r)
  | .unaryOp .not e => (whereTruth e).not
  | .isNull e => .ofBool (M.isNull (scalarOf M leaves row e))
  | .isNotNull e => .ofBool (!M.isNull (scalarOf M leaves row e))
  | .inList e list negated =>
    negatedTruth negated (Truth.any (list.map fun x =>
      M.compare .eq (scalarOf M leaves row e) (scalarOf M leaves row x)))
  | .between e negated low high =>
    let cell := scalarOf M leaves row e
    negatedTruth negated ((M.compare .gte cell (scalarOf M leaves row low)).and
        (M.compare .lte cell (scalarOf M leaves row high)))
  | .like negated _ e pattern esc =>
    negatedTruth negated (M.like false (escapeChars esc)
      (scalarOf M leaves row e) (scalarOf M leaves row pattern))
  | .iLike negated _ e pattern esc =>
    negatedTruth negated (M.like true (escapeChars esc)
      (scalarOf M leaves row e) (scalarOf M leaves row pattern))
  | .nested e => whereTruth e
  | e => leaves.truth e

end Meaning

section Condition

variable [FloatOps] [SqlParser]

def isColumn (e : SqlExpr) : Bool := (exprToColumnName e).isSome

def isLiteral (e : SqlExpr) : Bool := (sqlExprToScalar e).isSome

def translatable : SqlExpr → Bool
  | .binaryOp l .and r => translatable l || translatable r
  | .binaryOp l .or r => translatable l && translatable r
  | .binaryOp l op r =>
    (comparisonOp op).isSome &&
    (isColumn l && isLiteral r || isLiteral l && isColumn r)
  | .unaryOp .not e => translatable e
  | .isNull e => isColumn e
  | .isNotNull e => isColumn e
  | .inList e _ _ => isColumn e
  | .like _ _ e pattern _ => isColumn e && isLiteral pattern
  | .iLike _ _ e pattern _ => isColumn e && isLiteral pattern
  | .nested e => translatable e
  | .between e _ low high => isColumn e && isLiteral low && isLiteral high
  | _ => false

def escapeInert (esc : Option Value) (pattern : SqlExpr) : Bool :=
  match sqlExprToScalar pattern with
  | some (.utf8 s) => (escapeChars esc).all fun c => c ∉ s
  | _ => (escapeChars esc).isEmpty

/--
Nothing is dropped where dropping is unsafe.  At positive polarity (`true`) an
`IN` list must be all literals; at negative polarity both sides of an `AND`
must have a filter.  An `ESCAPE` clause must not matter at either.
-/
def keeps : Bool → SqlExpr → Bool
  | p, .binaryOp l .and r =>
    (p || translatable l && translatable r) &&
      (!translatable l || keeps p l) && (!translatable r || keeps p r)
  | p, .binaryOp l .or r => keeps p l && keeps p r
  | p, .unaryOp .not e => keeps (!p) e
  | p, .inList _ list negated => p == negated || list.all isLiteral
  | _, .like _ _ _ pattern esc => escapeInert esc pattern
  | _, .iLike _ _ _ pattern esc => escapeInert esc pattern
  | p, .nested e => keeps p e
  | _, _ => true

def operands : SqlExpr → List SqlExpr
  | .binaryOp l .and r =>
    (if translatable l then operands l else []) ++
      (if translatable r then operands r else [])
  | .binaryOp l .or r => operands l ++ operands r
  | .binaryOp l _ r => [l, r]
  | .unaryOp .not e => operands e
  | .isNull e => [e]
  | .isNotNull e => [e]
  | .inList e list _ => e :: list
  | .like _ _ e pattern _ => [e, pattern]
  | .iLike _ _ e pattern _ => [e, pattern]
  | .between e _ low high => [e, low, high]
  | .nested e => operands e
  | _ => []

end Condition

section Soundness

variable {C : Type} {M : SqlModel C} {leaves : Leaves C} {row : Str → C}
  {e : SqlExpr} {list : List SqlExpr} {op : BinaryOperator}
  {cmp : ComparisonOp} {f : FilterExpr}

theorem reversedOp_eq_converse (op : ComparisonOp) :
    reversedOp op = op.converse := by
  cases op <;> rfl

theorem negatedTruth_within {p negated : Bool} {t u : Truth}
    (h : Truth.Within (p != negated) t u) :
    Truth.Within p (negatedTruth negated t) (negatedTruth negated u) := by
  cases negated with
  | false => simpa [negatedTruth] using h
  | true => simpa [negatedTruth] using Truth.Within.not (by simpa using h)

section Truth

variable [Unicode]

theorem filterTruth_negateIf (negated : Bool) (f : FilterExpr) :
    M.filterTruth row (negateIf negated f) =
      negatedTruth negated (M.filterTruth row f) := by
  cases negated <;> rfl

theorem whereTruth_comparison {l r : SqlExpr} (h : comparisonOp op = some cmp) :
    whereTruth M leaves row (.binaryOp l op r) =
      M.compare cmp (scalarOf M leaves row l) (scalarOf M leaves row r) := by
  cases op <;> simp only [comparisonOp, Option.some.injEq, reduceCtorEq] at h
  all_goals
    subst h
    rfl

theorem satisfies_comparison (h : comparisonOp op = some cmp) (a b : C) :
    M.satisfies cmp a b = M.compare cmp a b := by
  cases op <;> simp only [comparisonOp, Option.some.injEq, reduceCtorEq] at h
  all_goals
    subst h
    rfl

theorem satisfies_reversed (h : comparisonOp op = some cmp) (a b : C) :
    M.satisfies (reversedOp cmp) a b = M.compare cmp b a := by
  rw [← M.compare_converse cmp b a, ← reversedOp_eq_converse]
  cases op <;> simp only [comparisonOp, Option.some.injEq, reduceCtorEq] at h
  all_goals
    subst h
    rfl

variable [FloatOps]

theorem like_inert {ignoreCase : Bool} {esc : Option Value} {pattern : SqlExpr}
    {s : ScalarValue} (cell : C) (hs : sqlExprToScalar pattern = some s)
    (hesc : escapeInert esc pattern = true) :
    M.like ignoreCase (escapeChars esc) cell (M.ofScalar s) =
      M.like ignoreCase [] cell (M.ofScalar s) := by
  simp only [escapeInert, hs] at hesc
  split at hesc
  · rename_i t ht
    cases ht
    simp only [all_eq_true, decide_eq_true_eq] at hesc
    cases hcell : M.text cell with
    | none => simp [CellModel.like, hcell]
    | some t =>
      simp [CellModel.like, hcell, M.text_utf8, likeTokens_inert hesc]
  · rw [isEmpty_iff.mp hesc]

end Truth

variable [FloatOps] [SqlParser]

/-- What the translation sends for an operand is what the operand means. -/
def SentAsMeant (M : SqlModel C) (leaves : Leaves C) (row : Str → C)
    (e : SqlExpr) : Prop :=
  (∀ field ∈ exprToColumnName e, scalarOf M leaves row e = row field) ∧
    ∀ s ∈ sqlExprToScalar e, scalarOf M leaves row e = M.ofScalar s

theorem sentAsMeant_identifier (id : Ident) :
    SentAsMeant M leaves row (.identifier id) := by
  simp [SentAsMeant, exprToColumnName, sqlExprToScalar, scalarOf]

theorem sentAsMeant_integer {text : Str} {i : Int64} (long : Bool)
    (h : Str.parseI64 text = some i) :
    SentAsMeant M leaves row (.value (.number text long)) := by
  simp [SentAsMeant, exprToColumnName, sqlExprToScalar, scalarOf,
    valueToScalar, SqlModel.literal, h, M.number_int text i h]

theorem filterMap_scalars_subset
    (hsent : ∀ x ∈ list, SentAsMeant M leaves row x) (cell : C) :
    ((list.filterMap sqlExprToScalar).map fun v =>
        M.compare .eq cell (M.ofScalar v)) ⊆
      list.map fun x => M.compare .eq cell (scalarOf M leaves row x) := by
  intro t ht
  obtain ⟨v, hv, rfl⟩ := mem_map.mp ht
  obtain ⟨x, hx, hxv⟩ := mem_filterMap.mp hv
  exact mem_map.mpr ⟨x, hx, by rw [(hsent x hx).2 v hxv]⟩

theorem filterMap_scalars_eq
    (hsent : ∀ x ∈ list, SentAsMeant M leaves row x)
    (h : list.all isLiteral = true) (cell : C) :
    ((list.filterMap sqlExprToScalar).map fun v =>
        M.compare .eq cell (M.ofScalar v)) =
      list.map fun x => M.compare .eq cell (scalarOf M leaves row x) := by
  induction list with
  | nil => rfl
  | cons x list ih =>
    simp only [all_cons, Bool.and_eq_true] at h
    rw [forall_mem_cons] at hsent
    obtain ⟨s, hs⟩ := Option.isSome_iff_exists.mp h.1
    simp [hs, hsent.1.2 s hs, ih hsent.2 h.2]

private theorem translateComparison_isSome (l : SqlExpr) (op : BinaryOperator)
    (r : SqlExpr) :
    (translateComparison l op r).isSome = ((comparisonOp op).isSome &&
        (isColumn l && isLiteral r || isLiteral l && isColumn r)) := by
  unfold translateComparison isColumn isLiteral
  cases comparisonOp op with
  | none => rfl
  | some cmp =>
    cases exprToColumnName l <;> cases sqlExprToScalar r <;>
      cases sqlExprToScalar l <;> cases exprToColumnName r <;> rfl

theorem translateExpr_isSome (e : SqlExpr) :
    (translateExpr e).isSome = translatable e := by
  fun_induction translateExpr e with
  | case1 l r ihl ihr | case2 l r ihl ihr =>
    rw [translatable, ← ihl, ← ihr]
    cases translateExpr l <;> cases translateExpr r <;> rfl
  | case3 l op r hand hor =>
    rw [translateComparison_isSome]
    cases op <;> first | rfl | contradiction
  | case4 e ih => rw [Option.isSome_map, ih, translatable]
  | case5 e | case6 e => rw [Option.isSome_map, translatable, isColumn]
  | case7 e list negated =>
    rw [translatable, isColumn, translateIn]
    cases exprToColumnName e <;> rfl
  | case8 negated _ e pattern _ | case9 negated _ e pattern _ =>
    rw [translatable, isColumn, isLiteral, translateLike]
    cases exprToColumnName e <;> cases sqlExprToScalar pattern <;> rfl
  | case10 e ih => rw [ih, translatable]
  | case11 e negated low high =>
    rw [translatable, isColumn, isLiteral, isLiteral, translateBetween]
    cases exprToColumnName e <;> cases sqlExprToScalar low <;>
      cases sqlExprToScalar high <;> rfl
  | case12 e =>
    unfold translatable
    split <;> grind

variable [Unicode]

theorem translateComparison_exact {l r : SqlExpr}
    (h : translateComparison l op r = some f)
    (hl : SentAsMeant M leaves row l) (hr : SentAsMeant M leaves row r) :
    whereTruth M leaves row (.binaryOp l op r) = M.filterTruth row f := by
  cases hop : comparisonOp op with
  | none => simp [translateComparison, hop] at h
  | some cmp =>
    rw [whereTruth_comparison hop]
    simp only [translateComparison, hop] at h
    split at h
    · rename_i field value hfield hvalue
      cases h
      rw [hl.1 field hfield, hr.2 value hvalue]
      exact (satisfies_comparison hop _ _).symm
    · split at h
      · rename_i value field hvalue hfield
        cases h
        rw [hr.1 field hfield, hl.2 value hvalue]
        exact (satisfies_reversed hop _ _).symm
      · cases h

theorem translateIn_within {p negated : Bool}
    (h : translateIn e list negated = some f)
    (hkeeps : keeps p (.inList e list negated) = true)
    (hsent : ∀ x ∈ e :: list, SentAsMeant M leaves row x) :
    Truth.Within p (whereTruth M leaves row (.inList e list negated))
      (M.filterTruth row f) := by
  obtain ⟨hcolumn, hlist⟩ := forall_mem_cons.mp hsent
  obtain ⟨field, hfield, hf⟩ := Option.bind_eq_some_iff.mp h
  cases hf
  rw [filterTruth_negateIf]
  simp only [whereTruth, hcolumn.1 field hfield, CellModel.filterTruth]
  apply negatedTruth_within
  simp only [keeps, Bool.or_eq_true, beq_iff_eq] at hkeeps
  rcases hkeeps with rfl | hall
  · -- under an odd number of negations a shorter list is safe
    rw [bne_self_eq_false]
    exact Truth.Within.any_subset (filterMap_scalars_subset hlist _)
  · rw [filterMap_scalars_eq hlist hall]
    exact Truth.Within.refl _ _

theorem translateLike_exact {op : ComparisonOp} {ignoreCase negated : Bool}
    {e pattern : SqlExpr} {esc : Option Value} (hop : ∀ a b : C,
      M.satisfies op a b = M.like ignoreCase [] a b)
    (h : translateLike op negated e pattern = some f)
    (hesc : escapeInert esc pattern = true)
    (hcolumn : SentAsMeant M leaves row e)
    (hpattern : SentAsMeant M leaves row pattern) :
    negatedTruth negated (M.like ignoreCase (escapeChars esc)
        (scalarOf M leaves row e) (scalarOf M leaves row pattern)) =
      M.filterTruth row f := by
  obtain ⟨field, hfield, h⟩ := Option.bind_eq_some_iff.mp h
  obtain ⟨value, hvalue, hf⟩ := Option.bind_eq_some_iff.mp h
  cases hf
  rw [filterTruth_negateIf, hcolumn.1 field hfield,
    hpattern.2 value hvalue, like_inert _ hvalue hesc, ← hop]
  rfl

private theorem translateBetween_exact {negated : Bool} {e low high : SqlExpr}
    (h : translateBetween e negated low high = some f)
    (hsent : ∀ x ∈ [e, low, high], SentAsMeant M leaves row x) :
    whereTruth M leaves row (.between e negated low high) =
      M.filterTruth row f := by
  obtain ⟨field, hfield, h⟩ := Option.bind_eq_some_iff.mp h
  obtain ⟨lowVal, hlow, h⟩ := Option.bind_eq_some_iff.mp h
  obtain ⟨highVal, hhigh, hf⟩ := Option.bind_eq_some_iff.mp h
  cases hf
  rw [filterTruth_negateIf]
  simp only [forall_mem_cons] at hsent
  simp only [whereTruth, hsent.1.1 field hfield,
    hsent.2.1.2 lowVal hlow, hsent.2.2.1.2 highVal hhigh]
  rfl

/--
At either polarity, an expression from which nothing is dropped unsafely
entails its filter: at `true` the filter keeps truth, at `false` falsehood.
-/
theorem translateExpr_within {p : Bool} (h : translateExpr e = some f)
    (hkeeps : keeps p e = true)
    (hsent : ∀ x ∈ operands e, SentAsMeant M leaves row x) :
    Truth.Within p (whereTruth M leaves row e) (M.filterTruth row f) := by
  fun_induction translateExpr e generalizing p f with
  | case1 l r ihl ihr =>
    simp only [keeps, Bool.and_eq_true, Bool.or_eq_true,
      Bool.not_eq_true', ← translateExpr_isSome] at hkeeps
    simp only [operands, forall_mem_append, ← translateExpr_isSome] at hsent
    simp only [whereTruth]
    cases hl : translateExpr l with
    | some fl =>
      have hle := ihl hl (by simpa [hl] using hkeeps.1.2)
        (by simpa [hl] using hsent.1)
      cases hr : translateExpr r with
      | some fr =>
        rw [hl, hr] at h
        cases h
        exact hle.and (ihr hr (by simpa [hr] using hkeeps.2)
          (by simpa [hr] using hsent.2))
      | none =>
        rw [hl, hr] at h
        cases h
        obtain rfl : p = true := by simpa [hr] using hkeeps.1.1
        exact hle.and_left
    | none =>
      cases hr : translateExpr r with
      | some fr =>
        rw [hl, hr] at h
        cases h
        obtain rfl : p = true := by simpa [hl] using hkeeps.1.1
        exact (ihr hr (by simpa [hr] using hkeeps.2)
          (by simpa [hr] using hsent.2)).and_right
      | none => simp [hl, hr, translateAnd] at h
  | case2 l r ihl ihr =>
    simp only [keeps, Bool.and_eq_true] at hkeeps
    simp only [operands, forall_mem_append] at hsent
    cases hl : translateExpr l with
    | none => simp [hl, translateOr] at h
    | some fl =>
      cases hr : translateExpr r with
      | none => simp [hl, hr, translateOr] at h
      | some fr =>
        rw [hl, hr] at h
        cases h
        exact (ihl hl hkeeps.1 hsent.1).or (ihr hr hkeeps.2 hsent.2)
  | case3 l op r hand hor =>
    have hpair : operands (.binaryOp l op r) = [l, r] := by
      cases op <;> first | rfl | contradiction
    rw [hpair] at hsent
    exact .of_eq p (translateComparison_exact h (hsent l (by simp))
      (hsent r (by simp)))
  | case4 e ih =>
    obtain ⟨g, hg, rfl⟩ := Option.map_eq_some_iff.mp h
    exact (ih hg hkeeps hsent).not
  | case5 e | case6 e =>
    obtain ⟨field, hfield, rfl⟩ := Option.map_eq_some_iff.mp h
    simp only [whereTruth, (hsent e (by simp [operands])).1 field hfield]
    exact .refl _ _
  | case7 e list negated => exact translateIn_within h hkeeps hsent
  | case8 negated _ e pattern esc | case9 negated _ e pattern esc =>
    exact .of_eq p (translateLike_exact (fun _ _ => rfl) h hkeeps
      (hsent e (by simp [operands])) (hsent pattern (by simp [operands])))
  | case10 e ih => exact ih h hkeeps hsent
  | case11 e negated low high =>
    exact .of_eq p (translateBetween_exact h hsent)
  | case12 e => cases h

end Soundness

/-! ## Rows and pushed filters -/

/--
The filter pushed to a connector keeps every row its `WHERE` clause keeps,
provided nothing is dropped where dropping narrows the condition and every
column and literal of a pushed part is sent as what it means on the row.
-/
theorem pushed_filter_keeps_row {C : Type} [Unicode] [FloatOps] [SqlParser]
    (M : SqlModel C) (leaves : Leaves C) (row : Str → C) (e : SqlExpr)
    (f : FilterExpr) (hkeeps : keeps true e = true)
    (hsent : ∀ x ∈ operands e, SentAsMeant M leaves row x)
    (h : translateExpr e = some f) (hrow : whereTruth M leaves row e = .tt) :
    M.filterTruth row f = .tt :=
  (translateExpr_within h hkeeps hsent).1 hrow

section Cases

attribute [local instance] asciiUnicode integersOnly

def scalarModel : SqlModel ScalarValue where
  toCellModel := scalarCells
  number text := ((Str.parseI64 text).map .int64).getD .null
  otherLiteral _ := .null
  negate s := (negateScalar s).getD .null
  number_int text i h := by rw [h]; rfl
  negate_int _ _ := rfl

def halfTranslatable : SqlExpr :=
  .binaryOp (.binaryOp (.identifier { value := "status" }) .eq
    (.value (.number "200" false))) .and
    (.binaryOp (.other "CASE WHEN level = 'error' THEN 1 ELSE 0 END") .eq
      (.value (.number "1" false)))

def constantLeaves (cell : ScalarValue) : Leaves ScalarValue where
  truth _ := .unknown
  scalar _ := cell

def statusRow (status : ScalarValue) (field : Str) : ScalarValue :=
  if field = "status" then status else .null

theorem pushed_filter_keeps_row_conjunction :
    scalarModel.filterTruth (statusRow (.int64 200))
      (.comparison "status" .eq (.int64 200)) = .tt :=
  letI := tableParser []
  pushed_filter_keeps_row scalarModel (constantLeaves (.int64 1))
    (statusRow (.int64 200)) halfTranslatable _ (by decide)
    (by
      have hpushed : operands halfTranslatable =
        [.identifier { value := "status" }, .value (.number "200" false)] := rfl
      simp only [hpushed, forall_mem_cons]
      exact ⟨sentAsMeant_identifier _, sentAsMeant_integer (i := 200) _ rfl,
        nofun⟩)
    (by decide) (by decide)

/--
Under a `NOT` the dropped conjunct takes the row with it: the clause is true
on a row with status 200 whose `CASE` is 0, and the pushed filter is false.
-/
theorem pushed_filter_drops_row :
    letI := tableParser []
    let clause := SqlExpr.unaryOp .not (.nested halfTranslatable)
    let filter := FilterExpr.not (.comparison "status" .eq (.int64 200))
    translateExpr clause = some filter ∧
      whereTruth scalarModel (constantLeaves (.int64 0))
      (statusRow (.int64 200)) clause = .tt ∧
      scalarModel.filterTruth (statusRow (.int64 200)) filter = .ff := by decide

end Cases

end Fuse.Engine
