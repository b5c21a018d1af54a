import Mathlib.Data.List.Forall2
import Fuse.Connectors.SqlText
import Fuse.Engine.SqlGrammar
import Fuse.Engine.SqlToSubquery

/-!
# Written SQL read back

The texts the connectors put together, with what the grammar reads them as and
what the translation makes of that.  A connector is known here by how it writes
names, operators and scalars.
-/

namespace Fuse.Engine

open Foundation Fuse.Core Connectors Parse List

/-! ## Names, lists and clauses -/

def NameText (text name : Str) : Prop :=
  ∃ id : Ident, Lexes text [.word id] ∧ id.value = name

/-- The text is read as a phrase with the property `P`. -/
def Written {α : Type} (ok : Token → Bool) (p : Nat → Parse Token α)
    (P : α → Prop) (text : Str) : Prop :=
  ∃ tokens a, Lexes text tokens ∧
    (∀ depth, tokens.length < depth → Reads ok (p depth) tokens a) ∧ P a

theorem NameText.written {levels : Nat} {text name : Str}
    (h : NameText text name) :
    Written exprEnds (shallowExpr levels)
      (fun e => ∃ id : Ident, e = .identifier id ∧ id.value = name) text := by
  obtain ⟨id, hlex, hid⟩ := h
  refine ⟨[.word id], .identifier id, hlex, ?_, id, rfl, hid⟩
  intro depth hdepth
  obtain ⟨d, rfl⟩ := Nat.exists_eq_add_of_lt hdepth
  exact shallowExpr_name id

variable {ι α : Type} {p : Nat → Parse Token α} {is : List ι}

theorem written_list {ok : Token → Bool} {P : ι → α → Prop} {text : ι → Str}
    (hcomma : ok .comma = true) (hne : is ≠ [])
    (his : ∀ i ∈ is, Written ok p (P i) (text i)) :
    Written (fun t => ok t && t ≠ .comma) (fun d => listOf .comma (p d))
      (List.Forall₂ P is) (Str.joinWith ", " (is.map text)) := by
  obtain ⟨i, hi⟩ := exists_mem_of_ne_nil is hne
  obtain ⟨-, a, -⟩ := his i hi
  have : Nonempty α := ⟨a⟩
  choose! tokens value hlex hreads hvalue using his
  refine ⟨_, is.map value, lexes_joinWith hlex, ?_, ?_⟩
  · intro depth hdepth
    refine listOf_reads hcomma hne fun j hj => hreads j hj depth ?_
    exact Nat.lt_of_le_of_lt (length_le_separated _ _ hj) hdepth
  · rw [forall₂_map_right_iff]
    exact forall₂_same.mpr hvalue

def ClauseWritten {α : Type} (rank : Nat) (p : Nat → Parse Token (Option α))
    (P : Option α → Prop) (text : Str) : Prop :=
  ∃ tokens a, (∀ xs us, Lexes xs us → Lexes (xs ++ text) (us ++ tokens)) ∧
    Follows (startsLater (rank - 1)) tokens ∧
    (∀ depth, tokens.length < depth →
      Reads (startsLater rank) (p depth) tokens a) ∧ P a

section Clauses

variable {α : Type} {rank : Nat} {p : Nat → Parse Token α}
  {P : Option α → Prop} {k : Token} {ks : List Token}

theorem clauseWritten_none (hk : clauseRank k = rank) (hP : P none) :
    ClauseWritten rank (fun d => (p d).clause (k :: ks)) P [] := by
  refine ⟨[], none, ?_, follows_nil _, ?_, hP⟩
  · intro xs us hxs
    rwa [append_nil, append_nil]
  · intro depth _
    refine reads_noClause ?_ ks (p depth)
    rw [startsLater, hk]
    exact decide_eq_false (Nat.lt_irrefl _)

theorem Written.clause {ok : Token → Bool} {keyword text : Str} {Q : α → Prop}
    (h : Written ok p Q text) (hkeyword : LexesAll keyword (k :: ks))
    (hbreak : startsBreak keyword = true) (hk : clauseRank k = rank + 1)
    (hok : ∀ t, startsLater (rank + 1) t = true → ok t = true)
    (hP : ∀ a, Q a → P (some a)) :
    ClauseWritten (rank + 1) (fun d => (p d).clause (k :: ks)) P
    (keyword ++ text) := by
  obtain ⟨us, a, hus, hreads, ha⟩ := h
  refine ⟨k :: ks ++ us, some a, ?_, ?_, ?_, hP a ha⟩
  · intro xs vs hxs
    rw [← append_assoc, ← append_assoc]
    exact (hxs.thenAll hkeyword hbreak).thenText hus
  · refine follows_cons ?_ _
    rw [startsLater, hk]
    exact decide_eq_true (Nat.lt_succ_self _)
  · intro depth hdepth
    rw [length_append] at hdepth
    exact ((hreads depth (by omega)).mono hok).clause (k :: ks)

end Clauses

theorem filterMap_of_forall₂ {f : α → Option ι} {as : List α}
    (h : List.Forall₂ (fun i a => f a = some i) is as) :
    as.filterMap f = is := by
  induction h with
  | nil => rfl
  | cons hi _ ih => rw [filterMap_cons_some hi, ih]

theorem listClause_written {ok : Token → Bool} {rank : Nat} {Q : ι → α → Prop}
    {P : Option (List α) → Prop} {text : ι → Str} {keyword : Str} {k : Token}
    {ks : List Token}
    (his : ∀ i ∈ is, Written ok p (Q i) (text i)) (hcomma : ok .comma = true)
    (hkeyword : LexesAll keyword (k :: ks))
    (hbreak : startsBreak keyword = true)
    (hk : clauseRank k = rank + 1) (hok : ∀ t, startsLater (rank + 1) t = true →
      ok t = true)
    (hnone : is = [] → P none) (hsome : ∀ as, List.Forall₂ Q is as →
      P (some as)) :
    ClauseWritten (rank + 1) (fun d => (listOf .comma (p d)).clause (k :: ks))
      P (listClause keyword (is.map text)) := by
  by_cases hne : is = []
  · subst hne
    exact clauseWritten_none hk (hnone rfl)
  have hclause : listClause keyword (is.map text) = keyword ++
      Str.joinWith ", " (is.map text) := by
    rw [listClause, if_neg (by simpa using hne)]
  rw [hclause]
  refine (written_list hcomma hne his).clause hkeyword hbreak hk
    (fun t ht => ?_) hsome
  rw [hok t ht, startsLater_ne_comma t ht]
  rfl

def numberClause (keyword : Str) : Option Nat → Str
  | some n => keyword ++ Str.ofNat n
  | none => []

theorem number_written {levels rank : Nat} {keyword : Str} {k : Token}
    {n : Option Nat}
    (hn : ∀ m ∈ n, m < 2 ^ 64) (hkeyword : LexesAll keyword [k])
    (hbreak : startsBreak keyword = true) (hk : clauseRank k = rank + 1) :
    ClauseWritten (rank + 1)
      (fun d => (operand (shallowExpr levels d)).clause [k])
      (fun e => e.bind exprToU64 = n) (numberClause keyword n) := by
  cases n with
  | none => exact clauseWritten_none hk rfl
  | some m =>
    have hnumber : Written (fun _ => true)
        (fun d => operand (shallowExpr levels d))
            (fun e => exprToU64 e = some m) (Str.ofNat m) :=
      ⟨_, .value (.number (Str.ofNat m) false), lexes_ofNat m,
        fun _ _ _ _ => rfl, Str.parseUnsigned_ofNat (hn m rfl)⟩
    exact hnumber.clause hkeyword hbreak hk (fun _ _ => rfl) fun _ he => he

theorem limitClause_eq (n : Option Nat) :
    limitClause n = numberClause " LIMIT " n := by
  cases n <;> rfl

theorem offsetClause_eq (n : Option Nat) :
    offsetClause n = numberClause " OFFSET " n := by
  cases n <;> rfl

theorem extractLimit_limitOf (limit offset : Option SqlExpr) :
    (limitOf limit offset).bind extractLimit = limit.bind exprToU64 := by
  cases limit <;> cases offset <;> rfl

theorem extractOffset_limitOf (limit offset : Option SqlExpr) :
    (limitOf limit offset).bind extractOffset = offset.bind exprToU64 := by
  cases limit <;> cases offset <;> rfl

theorem mergeFilters_none (filter : Option FilterExpr) :
    mergeFilters filter none = filter := by
  cases filter <;> rfl

theorem standardParse_written {levels : Nat}
    {select table name t₁ t₂ t₃ t₄ t₅ t₆ : Str}
    {P : List SelectItem → Prop} {P₁ P₃ P₅ P₆ : Option SqlExpr → Prop}
    {P₂ : Option (List SqlExpr) → Prop} {P₄ : Option (List OrderByExpr) → Prop}
    (hselect : Written (· = .keyword .FROM)
      (fun d => listOf .comma (selectItem (shallowExpr levels d))) P select)
    (htable : NameText table name) (h₁ : ClauseWritten 1
      (fun d => (shallowExpr levels d).clause [.keyword .WHERE]) P₁ t₁)
    (h₂ : ClauseWritten 2 (fun d =>
      (listOf .comma (shallowExpr levels d)).clause
      [.keyword .GROUP, .keyword .BY]) P₂ t₂)
    (h₃ : ClauseWritten 3
      (fun d => (shallowExpr levels d).clause [.keyword .HAVING]) P₃ t₃)
    (h₄ : ClauseWritten 4
      (fun d => (listOf .comma (orderItem (shallowExpr levels d))).clause
        [.keyword .ORDER, .keyword .BY]) P₄ t₄)
    (h₅ : ClauseWritten 5
      (fun d => (operand (shallowExpr levels d)).clause [.keyword .LIMIT])
      P₅ t₅)
    (h₆ : ClauseWritten 6
      (fun d => (operand (shallowExpr levels d)).clause [.keyword .OFFSET])
      P₆ t₆) :
    ∃ items id selection groupBy having orderBy limit offset,
      P items ∧ id.value = name ∧ P₁ selection ∧ P₂ groupBy ∧ P₃ having ∧
      P₄ orderBy ∧ P₅ limit ∧ P₆ offset ∧
      standardParse levels ("SELECT " ++ select ++ " FROM " ++ table ++ t₁ ++
        t₂ ++ t₃ ++ t₄ ++ t₅ ++ t₆) =
        some (.mk (.select (.mk items [.mk (.table [.identifier id]) []]
          selection (.expressions (groupBy.getD [])) having))
          (orderBy.map .expressions) (limitOf limit offset)) := by
  obtain ⟨us, items, hus, hitems, hP⟩ := hselect
  obtain ⟨id, hid, hname⟩ := htable
  obtain ⟨us₁, selection, hus₁, -, hselection, hP₁⟩ := h₁
  obtain ⟨us₂, groupBy, hus₂, hf₂, hgroupBy, hP₂⟩ := h₂
  obtain ⟨us₃, having, hus₃, hf₃, hhaving, hP₃⟩ := h₃
  obtain ⟨us₄, orderBy, hus₄, hf₄, horderBy, hP₄⟩ := h₄
  obtain ⟨us₅, limit, hus₅, hf₅, hlimit, hP₅⟩ := h₅
  obtain ⟨us₆, offset, hus₆, hf₆, hoffset, hP₆⟩ := h₆
  refine ⟨items, id, selection, groupBy, having, orderBy, limit, offset, hP,
    hname, hP₁, hP₂, hP₃, hP₄, hP₅, hP₆, ?_⟩
  have hselect : LexesAll "SELECT " [.keyword .SELECT] := rfl
  have hfrom : LexesAll " FROM " [.keyword .FROM] := rfl
  have hlex := hus₆ _ _ (hus₅ _ _ (hus₄ _ _ (hus₃ _ _ (hus₂ _ _ (hus₁ _ _
    (((hselect.thenText hus).thenAll hfrom rfl).thenText hid))))))
  have htokens : [Token.keyword .SELECT] ++ us ++ [.keyword .FROM] ++
      [.word id] ++ us₁ ++ us₂ ++ us₃ ++ us₄ ++ us₅ ++ us₆ =
      queryTokens us id us₁ us₂ us₃ us₄ us₅ us₆ := by simp [queryTokens]
  rw [htokens] at hlex
  -- every part is shorter than the whole
  have hlength : (queryTokens us id us₁ us₂ us₃ us₄ us₅ us₆).length =
      3 + us.length + us₁.length + us₂.length + us₃.length + us₄.length +
        us₅.length + us₆.length := by
    simp only [queryTokens, length_append, length_cons, length_nil]
    omega
  exact standardParse_eq hlex (queryPhrase_reads (hitems _ (by omega))
    (hselection _ (by omega))
    (hgroupBy _ (by omega)) (hhaving _ (by omega)) (horderBy _ (by omega))
    (hlimit _ (by omega)) (hoffset _ (by omega)) hf₂ hf₃ hf₄ hf₅ hf₆)

section Scalars

variable [FloatOps]

def ScalarText (text : Str) (value : ScalarValue) : Prop :=
  ∃ tokens e, Lexes text tokens ∧
    (∀ expr, Reads (fun _ => true) (operand expr) tokens e) ∧
    e.fits 2 = true ∧ sqlExprToScalar e = some value

theorem scalarText_string (s : Str) :
    ScalarText ("'" ++ Str.replace "'" "''" s ++ "'") (.utf8 s) :=
  ⟨_, .value (.singleQuotedString s), lexes_quoted rfl rfl s, fun _ _ _ => rfl,
    rfl, rfl⟩

theorem scalarText_boolean (b : Bool) :
    ScalarText (if b then "true" else "false") (.boolean b) := by
  cases b with
  | false =>
    exact ⟨_, .value (.boolean false), lexes_word rfl (all_eq_true.mp rfl),
      fun _ _ _ => rfl, rfl, rfl⟩
  | true =>
    exact ⟨_, .value (.boolean true), lexes_word rfl (all_eq_true.mp rfl),
      fun _ _ _ => rfl, rfl, rfl⟩

theorem scalarText_null : ScalarText "NULL" .null :=
  ⟨_, .value .null, lexes_word rfl (all_eq_true.mp rfl), fun _ _ _ => rfl,
    rfl, rfl⟩

theorem scalarText_int {n : Int64} (hn : -2 ^ 63 < n.toInt) :
    ScalarText (Str.ofInt n.toInt) (.int64 n) := by
  have hupper : n.toInt < 2 ^ 63 := Int64.toInt_lt n
  -- the digits are those of a number in range, also below zero
  have habs : Str.parseI64 (Str.ofNat n.toInt.natAbs) =
      some (Int64.ofInt n.toInt.natAbs) := by
    have hparse := Str.parseI64_ofInt (i := n.toInt.natAbs) (by omega)
    rwa [Str.ofInt, if_neg (by omega), Int.natAbs_natCast] at hparse
  by_cases hneg : n.toInt < 0
  · have htokens : intTokens n.toInt =
      [.minus, .number (Str.ofNat n.toInt.natAbs)] := if_pos hneg
    have hlex := lexes_ofInt n.toInt
    rw [htokens] at hlex
    refine ⟨_, .unaryOp .minus (.value (.number (Str.ofNat n.toInt.natAbs)
      false)), hlex, fun _ _ _ => rfl, rfl, ?_⟩
    have hminus : -Int64.ofInt n.toInt.natAbs = n := by
      rw [← Int64.ofInt_neg, Int.ofNat_natAbs_of_nonpos (by omega), Int.neg_neg,
        Int64.ofInt_toInt]
    simp only [sqlExprToScalar, valueToScalar, habs, Option.bind_some,
      negateScalar, hminus]
  · have htokens : intTokens n.toInt = [.number (Str.ofNat n.toInt.natAbs)] :=
      if_neg hneg
    have hlex := lexes_ofInt n.toInt
    rw [htokens] at hlex
    refine ⟨_, .value (.number (Str.ofNat n.toInt.natAbs) false), hlex,
      fun _ _ _ => rfl, rfl, ?_⟩
    have hself : Int64.ofInt n.toInt.natAbs = n := by
      rw [Int.natAbs_of_nonneg (by omega), Int64.ofInt_toInt]
    simp only [sqlExprToScalar, valueToScalar, habs, hself]

variable {text : Str}

omit [FloatOps] in
theorem parseI64_fraction (h : IsFraction text) : Str.parseI64 text = none := by
  obtain ⟨c, w, v, rfl, hc, -, -⟩ := h
  have hsign : ∀ d rest, d.isDigit = false →
      c :: (w ++ '.' :: v) ≠ d :: rest := by
    rintro d rest hd ⟨⟩
    rw [hc] at hd
    cases hd
  have hdigits : Str.parseDigits (c :: (w ++ '.' :: v)) = none := by
    rw [Str.parseDigits, if_neg]
    rintro ⟨-, hall⟩
    have hpoint := all_eq_true.mp hall '.' (by simp)
    cases hpoint
  rw [Str.parseI64_unsigned (fun _ => hsign '+' _ rfl)
    (fun _ => hsign '-' _ rfl), hdigits, Option.bind_none]

theorem scalarText_fraction {f : F64} (h : IsFraction text)
    (hparse : FloatOps.parse text = some f) : ScalarText text (.float64 f) := by
  refine ⟨_, .value (.number text false), h.lexes, fun _ _ _ => rfl, rfl, ?_⟩
  simp [sqlExprToScalar, valueToScalar, parseI64_fraction h, hparse]

theorem scalarText_negFraction {f : F64} (h : IsFraction text)
    (hparse : FloatOps.parse text = some f.neg) :
    ScalarText ('-' :: text) (.float64 f) := by
  refine ⟨_, .unaryOp .minus (.value (.number text false)), h.lexes_neg,
    fun _ _ _ => rfl, rfl, ?_⟩
  simp [sqlExprToScalar, valueToScalar, parseI64_fraction h, hparse,
    negateScalar, F64.neg_neg]

/-- The scalars whose text has one reading; the least `i64` is read as a
double. -/
def PlainScalar : ScalarValue → Prop
  | .float64 _ => False
  | .int64 n => -2 ^ 63 < n.toInt
  | _ => True

instance : DecidablePred PlainScalar
  | .float64 _ => .isFalse id
  | .int64 n => inferInstanceAs (Decidable (-2 ^ 63 < n.toInt))
  | .null | .boolean _ | .utf8 _ => .isTrue trivial

theorem scalarText_plain [FloatText] {v : ScalarValue}
    (hv : PlainScalar v) : ScalarText (scalarToSql v) v := by
  cases v with
  | null => exact scalarText_null
  | boolean b => exact scalarText_boolean b
  | int64 n => exact scalarText_int hv
  | float64 f => exact hv.elim
  | utf8 s => exact scalarText_string s

end Scalars

section Filters

variable [FloatOps] [SqlParser]

/-- Between blanks the text is one token, and its predicate is translated to a
comparison. -/
def OperatorText (text : Str) (op : ComparisonOp) : Prop :=
  ∃ (t : Token) (build : SqlExpr → SqlExpr → SqlExpr),
    LexesAll (" " ++ text ++ " ") [t] ∧ t ≠ .lparen ∧
    (∀ expr left ts, (predicateTail expr left).run (t :: ts) =
      (build left <$> operand expr).run ts) ∧
    (∀ left right, (build left right).parts = [left, right]) ∧
    ∀ id right value, sqlExprToScalar right = some value →
      translateExpr (build (.identifier id) right) =
        some (.comparison id.value op value)

variable {text : Str} {f : FilterExpr}

theorem operatorText_compare {b : BinaryOperator} {op : ComparisonOp}
    (hlex : LexesAll (" " ++ text ++ " ") [.compare b])
    (hop : comparisonOp b = some op) : OperatorText text op := by
  refine ⟨.compare b, (.binaryOp · b ·), hlex, nofun, fun _ _ _ => rfl,
    fun _ _ => rfl, ?_⟩
  intro id right value hvalue
  have htranslate : translateExpr (.binaryOp (.identifier id) b right) =
      translateComparison (.identifier id) b right := by
    cases b <;> first | rfl | cases hop
  rw [htranslate, translateComparison, hop]
  simp [exprToColumnName, hvalue]

theorem operatorText_like : OperatorText "LIKE" .like := by
  refine ⟨.keyword .LIKE, (.like false false · · none), rfl, nofun,
    fun _ _ _ => rfl, fun _ _ => rfl, ?_⟩
  intro id right value hvalue
  simp only [translateExpr, translateLike, exprToColumnName, hvalue]
  rfl

def filterDepth : FilterExpr → Nat
  | .and l r | .or l r => max (filterDepth l) (filterDepth r) + 1
  | .not inner => filterDepth inner + 1
  | .comparison .. | .inList .. | .isNull _ | .isNotNull _ => 0

def Spans (levels : Nat) (e : SqlExpr) : Prop :=
  e.fits (textHeight levels) = true ∧
    ∀ height, e.fits height = true → levels < height

omit [FloatOps] [SqlParser] in
theorem spans_leaf {e : SqlExpr} (h : e.fits 3 = true) : Spans 0 e := by
  refine ⟨h, fun height hheight => Nat.pos_of_ne_zero ?_⟩
  rintro rfl
  cases hheight

omit [FloatOps] [SqlParser] in
theorem spans_succ {e inner : SqlExpr} {levels : Nat}
    (hinner : e.parts = [inner])
    (hle : ∀ x ∈ inner.parts, ∃ k ≤ levels, Spans k x)
    (hmem : ∃ x ∈ inner.parts, Spans levels x) : Spans (levels + 1) e := by
  constructor
  · refine SqlExpr.fits_succ.mpr fun y hy =>
      SqlExpr.fits_succ.mpr fun x hx => ?_
    rw [hinner, mem_singleton] at hy
    subst hy
    obtain ⟨k, hk, hx, -⟩ := hle x hx
    refine SqlExpr.fits_mono ?_ hx
    unfold textHeight
    omega
  · intro height hheight
    obtain ⟨x, hx, -, hleast⟩ := hmem
    cases height with
    | zero => cases hheight
    | succ height =>
      have hbelow := SqlExpr.fits_succ.mp hheight inner
        (hinner ▸ mem_singleton_self _)
      cases height with
      | zero => cases hbelow
      | succ height =>
        have := hleast height (SqlExpr.fits_succ.mp hbelow x hx)
        omega

/-- The text is read as an operand of `AND` that is translated to the filter
and as high as its connectives make it. -/
def FilterText (text : Str) (f : FilterExpr) : Prop :=
  ∃ tokens e, Lexes text tokens ∧ (∀ depth, tokens.length ≤ depth →
      Reads predicateEnds (notExpr (exprAt depth)) tokens e) ∧
    translateExpr e = some f ∧ Spans (filterDepth f) e

omit [FloatOps] [SqlParser] in
theorem reads_nested {us : List Token} {e : SqlExpr} (hlex : Lexes text us)
    (hreads : ∀ d, us.length ≤ d → Reads exprEnds (exprAt (d + 1)) us e) :
    ∃ vs, Lexes ("(" ++ text ++ ")") vs ∧ ∀ depth, vs.length ≤ depth →
      Reads predicateEnds (notExpr (exprAt depth)) vs (.nested e) := by
  have hopen : LexesAll "(" [.lparen] := rfl
  have hclose : LexesAll ")" [.rparen] := rfl
  refine ⟨_, ((hopen.thenText hlex).thenAll hclose rfl).lexes, ?_⟩
  intro depth hdepth
  rw [length_append, length_append] at hdepth
  have hpos : 0 < depth := Nat.lt_of_lt_of_le (Nat.succ_pos _) hdepth
  obtain ⟨d, rfl⟩ := Nat.exists_eq_add_of_lt hpos
  rw [Nat.zero_add]
  refine notExpr_nested (hreads d ?_)
  simp only [length_cons, length_nil] at hdepth
  omega

section Connectives

variable {s t : Str} {f g : FilterExpr}

theorem FilterText.connect (op : BinaryOperator) {k : Keyword} {word : Str}
    {h : FilterExpr} (hf : FilterText s f) (hg : FilterText t g)
    (hword : LexesAll word [.keyword k]) (hbreak : startsBreak word = true)
    (hreads : ∀ {depth us vs x y},
      Reads predicateEnds (notExpr (exprAt depth)) us x →
      Reads predicateEnds (notExpr (exprAt depth)) vs y →
      Reads exprEnds (exprAt (depth + 1)) (us ++ .keyword k :: vs)
        (.binaryOp x op y))
    (htranslate : ∀ x y, translateExpr x = some f → translateExpr y = some g →
      translateExpr (.binaryOp x op y) = some h)
    (hdepth : filterDepth h = max (filterDepth f) (filterDepth g) + 1) :
    FilterText ("(" ++ s ++ word ++ t ++ ")") h := by
  obtain ⟨us, x, hus, hx, hxf, hspan⟩ := hf
  obtain ⟨vs, y, hvs, hy, hyg, hspan'⟩ := hg
  obtain ⟨ws, hws, hnested⟩ := reads_nested (e := .binaryOp x op y)
    ((hus.thenAll hword hbreak).thenText hvs) fun d hd => by
      rw [append_assoc] at hd ⊢
      rw [length_append, length_append] at hd
      exact hreads (hx d (by omega)) (hy d (by omega))
  have hspans : Spans (filterDepth h) (.nested (.binaryOp x op y)) := by
    rw [hdepth]
    refine spans_succ rfl (forall_mem_cons.mpr
      ⟨⟨_, Nat.le_max_left _ _, hspan⟩, forall_mem_singleton.mpr ?_⟩) ?_
    · exact ⟨_, Nat.le_max_right _ _, hspan'⟩
    · rcases Nat.le_total (filterDepth f) (filterDepth g) with hle | hle
      · rw [Nat.max_eq_right hle]
        exact ⟨y, mem_cons_of_mem _ mem_cons_self, hspan'⟩
      · rw [Nat.max_eq_left hle]
        exact ⟨x, mem_cons_self, hspan⟩
  have htext : FilterText ("(" ++ (s ++ word ++ t) ++ ")") h :=
    ⟨ws, _, hws, hnested, htranslate x y hxf hyg, hspans⟩
  simpa only [append_assoc] using htext

theorem FilterText.and (hf : FilterText s f) (hg : FilterText t g) :
    FilterText ("(" ++ s ++ " AND " ++ t ++ ")") (.and f g) :=
  hf.connect .and hg rfl rfl exprAt_and
    (fun x y hx hy => by simp [translateExpr, hx, hy, translateAnd]) rfl

theorem FilterText.or (hf : FilterText s f) (hg : FilterText t g) :
    FilterText ("(" ++ s ++ " OR " ++ t ++ ")") (.or f g) :=
  hf.connect .or hg rfl rfl exprAt_or
    (fun x y hx hy => by simp [translateExpr, hx, hy, translateOr]) rfl

theorem FilterText.not (hf : FilterText s f) :
    FilterText ("NOT (" ++ s ++ ")") (.not f) := by
  obtain ⟨us, x, hus, hx, hxf, hspan⟩ := hf
  obtain ⟨vs, hvs, hnested⟩ :=
    reads_nested hus fun d hd => exprAt_reads (hx d hd)
  have hnot : LexesAll "NOT " [.keyword .NOT] := rfl
  refine ⟨.keyword .NOT :: vs, .unaryOp .not (.nested x), hnot.thenText hvs,
    ?_, ?_, ?_⟩
  · intro depth hdepth
    exact notExpr_not (hnested depth (Nat.le_of_succ_le hdepth))
  · simp [translateExpr, hxf]
  · exact spans_succ rfl
      (forall_mem_singleton.mpr ⟨_, Nat.le_refl _, hspan⟩)
      ⟨x, mem_singleton_self _, hspan⟩

end Connectives

section Predicates

variable {s : Str} {name : Str}

theorem filterText_name (hs : NameText s name) {t : Str} {us : List Token}
    {b : SqlExpr → SqlExpr}
    {f : FilterExpr} (ht : Lexes t us) (hbreak : startsBreak t = true)
    (hus : Follows (· ≠ .lparen) us) (hreads : ∀ depth id, us.length < depth →
      Reads predicateEnds (predicateTail (exprAt depth) (.identifier id)) us
      (b (.identifier id)))
    (htranslate : ∀ id : Ident, id.value = name →
      translateExpr (b (.identifier id)) = some f)
    (hfits : ∀ id, (b (.identifier id)).fits 3 = true)
    (hf : filterDepth f = 0) :
    FilterText (s ++ t) f := by
  obtain ⟨id, hs, hid⟩ := hs
  refine ⟨.word id :: us, b (.identifier id), hs.thenText ht hbreak, ?_,
    htranslate id hid, hf ▸ spans_leaf (hfits id)⟩
  intro depth hdepth
  exact notExpr_of_tail (operand_name id _)
    (hreads depth id hdepth) hus predicateEnds_ne_lparen

theorem filterText_comparison {o v : Str} {op : ComparisonOp}
    {value : ScalarValue}
    (hs : NameText s name) (ho : OperatorText o op) (hv : ScalarText v value) :
    FilterText (s ++ " " ++ o ++ " " ++ v) (.comparison name op value) := by
  obtain ⟨t, build, hlex, hne, htail, hparts, htranslate⟩ := ho
  obtain ⟨us, e, hus, hreads, hfits, hvalue⟩ := hv
  have htext : FilterText (s ++ ((" " ++ o ++ " ") ++ v))
      (.comparison name op value) := by
    have hfollows : Follows (· ≠ .lparen) ([t] ++ us) := by
      rintro u ⟨rfl⟩
      exact decide_eq_true hne
    refine filterText_name hs (b := (build · e)) (hlex.thenText hus) rfl
      hfollows ?_ ?_ (fun id => ?_) rfl
    · intro depth id _ rest hrest
      rw [append_assoc]
      exact (htail _ _ _).trans ((hreads _).map (build (.identifier id)) rest
        fun _ _ => rfl)
    · rintro id rfl
      exact htranslate id e value hvalue
    · rw [SqlExpr.fits_succ, hparts]
      exact forall_mem_cons.mpr ⟨rfl, forall_mem_singleton.mpr hfits⟩
  simpa only [append_assoc] using htext

theorem filterText_inList {text : ScalarValue → Str} {values : List ScalarValue}
    (hs : NameText s name) (hne : values ≠ [])
    (hvalues : ∀ v ∈ values, ScalarText (text v) v) :
    FilterText (s ++ " IN (" ++ Str.joinWith ", " (values.map text) ++ ")")
      (.inList name values) := by
  have : Nonempty SqlExpr := ⟨.other []⟩
  choose! tokens value hlex hreads hfits hscalar using hvalues
  have hin : LexesAll " IN (" [.keyword .IN, .lparen] := rfl
  have hclose : LexesAll ")" [.rparen] := rfl
  have hlist : ∀ depth, Reads (fun t => exprEnds t && t ≠ .comma)
      (listOf .comma (exprAt (depth + 1)))
      (separated .comma tokens values) (values.map value) := fun depth =>
    listOf_reads rfl hne fun v hv =>
      exprAt_operand (hreads v hv) fun _ _ => rfl
  have hback : (values.map value).filterMap sqlExprToScalar = values := by
    rw [filterMap_map]
    exact (filterMap_congr (g := some) hscalar).trans filterMap_some
  have htext : FilterText (s ++ (" IN (" ++
      Str.joinWith ", " (values.map text) ++ ")")) (.inList name values) := by
    refine filterText_name hs (b := (.inList · (values.map value) false))
      ((hin.thenText (lexes_joinWith hlex)).thenAll hclose rfl).lexes rfl
      (follows_cons rfl _) ?_ ?_ (fun id => ?_) rfl
    · intro depth id hdepth rest hrest
      have hpos : 0 < depth := Nat.lt_of_le_of_lt (Nat.zero_le _) hdepth
      obtain ⟨d, rfl⟩ := Nat.exists_eq_add_of_lt hpos
      have hbefore := ((hlist d).before (k := .rparen) rfl []).map
        (SqlExpr.inList (.identifier id) · false) rest fun _ _ => rfl
      rw [append_assoc] at hbefore
      rw [Nat.zero_add, append_assoc, append_assoc]
      exact hbefore
    · rintro id rfl
      simp only [translateExpr, translateIn, exprToColumnName, hback]
      rfl
    · refine SqlExpr.fits_succ.mpr (forall_mem_cons.mpr ⟨rfl, ?_⟩)
      exact forall_mem_map.mpr hfits
  simpa only [append_assoc] using htext

theorem filterText_isNull (hs : NameText s name) :
    FilterText (s ++ " IS NULL") (.isNull name) := by
  have hlex : Lexes " IS NULL" [.keyword .IS, .keyword .NULL] :=
    ⟨[.keyword .IS], .word "NULL", _, rfl, pending_word _, rfl⟩
  refine filterText_name hs (b := .isNull) hlex rfl (follows_cons rfl _)
    (fun _ _ _ _ _ => rfl) ?_ (fun _ => rfl) rfl
  rintro id rfl
  rfl

theorem filterText_isNotNull (hs : NameText s name) :
    FilterText (s ++ " IS NOT NULL") (.isNotNull name) := by
  have hlex : Lexes " IS NOT NULL" [.keyword .IS, .keyword .NOT,
      .keyword .NULL] :=
    ⟨[.keyword .IS, .keyword .NOT], .word "NULL", _, rfl, pending_word _, rfl⟩
  refine filterText_name hs (b := .isNotNull) hlex rfl (follows_cons rfl _)
    (fun _ _ _ _ _ => rfl) ?_ (fun _ => rfl) rfl
  rintro id rfl
  rfl

end Predicates

/-! ## Filter trees -/

def FilterLeaves (op : ComparisonOp → Prop) (name : Str → Prop)
    (value : ScalarValue → Prop) : FilterExpr → Prop
  | .and l r => FilterLeaves op name value l ∧ FilterLeaves op name value r
  | .or l r => FilterLeaves op name value l ∧ FilterLeaves op name value r
  | .not inner => FilterLeaves op name value inner
  | .comparison field o v => name field ∧ op o ∧ value v
  | .inList field vs => name field ∧ vs ≠ [] ∧ ∀ v ∈ vs, value v
  | .isNull field => name field
  | .isNotNull field => name field

instance decidableFilterLeaves {op : ComparisonOp → Prop} {name : Str → Prop}
    {value : ScalarValue → Prop} [DecidablePred op] [DecidablePred name]
    [DecidablePred value] : DecidablePred (FilterLeaves op name value)
  | .and l r =>
    @instDecidableAnd _ _ (decidableFilterLeaves l) (decidableFilterLeaves r)
  | .or l r =>
    @instDecidableAnd _ _ (decidableFilterLeaves l) (decidableFilterLeaves r)
  | .not inner => decidableFilterLeaves inner
  | .comparison .. => inferInstanceAs (Decidable (_ ∧ _ ∧ _))
  | .inList .. => inferInstanceAs (Decidable (_ ∧ _ ∧ ∀ _ ∈ _, _))
  | .isNull field => inferInstanceAs (Decidable (name field))
  | .isNotNull field => inferInstanceAs (Decidable (name field))

theorem filterText_filterToSql [FloatText] {w : Wording}
    (h : FilterLeaves (fun op => OperatorText (w.operator op) op)
      (fun name => NameText (w.ident name) name)
      (fun v => ScalarText (scalarToSql v) v) f) :
    FilterText (filterToSql w f) f := by
  induction f with
  | and l r ihl ihr => exact (ihl h.1).and (ihr h.2)
  | or l r ihl ihr => exact (ihl h.1).or (ihr h.2)
  | not inner ih => exact (ih h).not
  | comparison field op value =>
    obtain ⟨hname, hop, hvalue⟩ := h
    exact filterText_comparison hname hop hvalue
  | inList field values =>
    obtain ⟨hname, hne, hvalues⟩ := h
    exact filterText_inList hname hne hvalues
  | isNull field => exact filterText_isNull h
  | isNotNull field => exact filterText_isNotNull h

def PlainOp (op : ComparisonOp) : Prop := op ≠ .iLike ∧ op ≠ .contains

instance : DecidablePred PlainOp := fun _ => inferInstanceAs (Decidable (_ ∧ _))

theorem operatorText_common (iLike : Str) {op : ComparisonOp}
    (hop : PlainOp op) :
    OperatorText (commonOperator iLike op) op := by
  cases op with
  | eq => exact operatorText_compare (b := .eq) rfl rfl
  | neq => exact operatorText_compare (b := .notEq) rfl rfl
  | lt => exact operatorText_compare (b := .lt) rfl rfl
  | lte => exact operatorText_compare (b := .ltEq) rfl rfl
  | gt => exact operatorText_compare (b := .gt) rfl rfl
  | gte => exact operatorText_compare (b := .gtEq) rfl rfl
  | like => exact operatorText_like
  | iLike => exact absurd rfl hop.1
  | contains => exact absurd rfl hop.2

omit [FloatOps] [SqlParser] in
theorem FilterLeaves.imp {op op' : ComparisonOp → Prop}
    {name name' : Str → Prop} {value value' : ScalarValue → Prop}
    (h : FilterLeaves op name value f) (hop : ∀ o, op o → op' o)
    (hname : ∀ n, name n → name' n) (hvalue : ∀ v, value v → value' v) :
    FilterLeaves op' name' value' f := by
  induction f with
  | and l r ihl ihr | or l r ihl ihr => exact ⟨ihl h.1, ihr h.2⟩
  | not inner ih => exact ih h
  | comparison field o v => exact ⟨hname _ h.1, hop _ h.2.1, hvalue _ h.2.2⟩
  | inList field vs =>
    exact ⟨hname _ h.1, h.2.1, fun v hv => hvalue v (h.2.2 v hv)⟩
  | isNull field | isNotNull field => exact hname _ h

theorem filterText_plain [FloatText] {ident : Str → Str} {iLike : Str}
    {name : Str → Prop}
    {value : ScalarValue → Prop} (hname : ∀ n, name n → NameText (ident n) n)
    (hvalue : ∀ v, value v → ScalarText (scalarToSql v) v)
    (h : FilterLeaves PlainOp name value f) :
    FilterText (filterToSql ⟨ident, commonOperator iLike⟩ f) f :=
  filterText_filterToSql
    (h.imp (fun _ => operatorText_common iLike) hname hvalue)

theorem FilterText.written {levels : Nat} (h : FilterText text f)
    (hf : filterDepth f ≤ levels) :
    Written exprEnds (shallowExpr levels)
      (fun e => translateExpr e = some f) text := by
  obtain ⟨us, e, hus, he, htranslate, hfits, -⟩ := h
  refine ⟨us, e, hus, ?_, htranslate⟩
  intro depth hdepth
  obtain ⟨d, rfl⟩ := Nat.exists_eq_add_of_lt hdepth
  refine shallowExpr_reads (exprAt_reads (he _ (by omega))) ?_
  exact SqlExpr.fits_mono (by unfold textHeight; omega) hfits

theorem standardParse_deep {levels : Nat} {table name : Str}
    (htable : NameText table name) (htext : FilterText text f)
    (hdeep : textHeight levels ≤ filterDepth f) :
    standardParse levels
      ("SELECT " ++ "*" ++ " FROM " ++ table ++ " WHERE " ++ text) = none := by
  obtain ⟨id, hid, -⟩ := htable
  obtain ⟨us, e, hus, hreads, -, -, hleast⟩ := htext
  have hselect : LexesAll "SELECT " [.keyword .SELECT] := rfl
  have hstar : LexesAll "*" [.star] := rfl
  have hfrom : LexesAll " FROM " [.keyword .FROM] := rfl
  have hwhere : LexesAll " WHERE " [.keyword .WHERE] := rfl
  have hlex := ((((hselect.thenText hstar.lexes).thenAll hfrom rfl).thenText
    hid).thenAll hwhere rfl).thenText hus
  have hhigh : e.fits (textHeight levels) = false := by
    rw [Bool.eq_false_iff]
    intro hfits
    exact Nat.not_lt.mpr hdeep (hleast _ hfits)
  exact standardParse_none hlex (queryPhrase_where (shallowExpr_deep
    (exprAt_reads (hreads _ (Nat.le_add_right us.length 4))) hhigh) id)

end Filters

section SelectLists

variable [Unicode] [SqlParser] (levels : Nat)

abbrev SelectWritten (projections : List Str)
    (aggregations : List AggregationExpr) (text : Str) : Prop :=
  Written (· = .keyword .FROM)
    (fun d => listOf .comma (selectItem (shallowExpr levels d)))
    (fun items => extractProjectionsAndAggs items =
      (projections, aggregations)) text

abbrev ItemWritten (parts : List Str × List AggregationExpr) (text : Str) :
    Prop :=
  Written memberEnds (fun d => selectItem (shallowExpr levels d))
    (fun item => extractProjectionsAndAggs [item] = parts) text

variable {levels}

private theorem extractProjectionsAndAggs_cons (item : SelectItem)
    (items : List SelectItem) :
    extractProjectionsAndAggs (item :: items) =
    ((extractProjectionsAndAggs [item]).1 ++
          (extractProjectionsAndAggs items).1,
        (extractProjectionsAndAggs [item]).2 ++
        (extractProjectionsAndAggs items).2) := by
  cases item with
  | unnamedExpr expr =>
    simp only [extractProjectionsAndAggs]
    cases tryExtractAgg expr none with
    | some agg => rfl
    | none => cases exprToColumnName expr <;> rfl
  | exprWithAlias expr aliasIdent =>
    simp only [extractProjectionsAndAggs]
    cases tryExtractAgg expr (some aliasIdent.value) with
    | some agg => rfl
    | none => cases exprToColumnName expr <;> rfl
  | wildcard | qualifiedWildcard name => rfl

theorem extractProjectionsAndAggs_eq {ι : Type}
    {parts : ι → List Str × List AggregationExpr} {is : List ι}
    {items : List SelectItem} (h : List.Forall₂ (fun i item =>
      extractProjectionsAndAggs [item] = parts i) is items) :
    extractProjectionsAndAggs items =
      (is.flatMap fun i => (parts i).1, is.flatMap fun i => (parts i).2) := by
  induction h with
  | nil => rfl
  | cons hitem _ ih =>
    rw [extractProjectionsAndAggs_cons, hitem, ih]
    rfl

theorem selectWritten_items {ι : Type} {text : ι → Str} {is : List ι}
    (parts : ι → List Str × List AggregationExpr) {projections : List Str}
    {aggregations : List AggregationExpr} (hne : is ≠ [])
    (his : ∀ i ∈ is, ItemWritten levels (parts i) (text i))
    (hprojections : (is.flatMap fun i => (parts i).1) = projections)
    (haggregations : (is.flatMap fun i => (parts i).2) = aggregations) :
    SelectWritten levels projections aggregations
    (Str.joinWith ", " (is.map text)) := by
  obtain ⟨us, items, hus, hreads, hparts⟩ := written_list rfl hne his
  refine ⟨us, items, hus, ?_, ?_⟩
  · intro depth hdepth
    refine (hreads depth hdepth).mono fun t ht => ?_
    rw [of_decide_eq_true ht]
    rfl
  · exact (extractProjectionsAndAggs_eq hparts).trans
      (congrArg₂ Prod.mk hprojections haggregations)

theorem itemWritten_star : ItemWritten levels ([], []) "*" := by
  have hlex : LexesAll "*" [.star] := rfl
  exact ⟨[.star], .wildcard, hlex.lexes, fun _ _ _ _ => rfl, rfl⟩

theorem itemWritten_name {text name : Str} (h : NameText text name) :
    ItemWritten levels ([name], []) text := by
  obtain ⟨id, hlex, rfl⟩ := h
  refine ⟨[.word id], .unnamedExpr (.identifier id), hlex, ?_, rfl⟩
  intro depth hdepth rest hrest
  obtain ⟨d, rfl⟩ := Nat.exists_eq_add_of_lt hdepth
  exact itemExpr_unnamed (shallowExpr_name id) rest hrest

theorem itemWritten_call {call fn aliasText : Str} {us : List Token}
    {args : FunctionArguments SqlExpr} {agg : AggregationExpr}
    (hcall : LexesAll call (.word { value := fn } :: .lparen ::
      (us ++ [.rparen])))
    (hargs : ∀ depth, Reads (· = .rparen)
      (functionArgs (exprAt (depth + 1))) us args)
    (hfits : ∀ e ∈ argExprs args, e.fits 1 = true)
    (halias : NameText aliasText agg.aliasName)
    (hagg : tryExtractAgg (callOf { value := fn } args) (some agg.aliasName) =
      some agg) :
    ItemWritten levels ([], [agg]) (call ++ " AS " ++ aliasText) := by
  obtain ⟨id, hid, hvalue⟩ := halias
  have has : LexesAll " AS " [.keyword .AS] := rfl
  rw [append_assoc]
  refine ⟨_, .exprWithAlias (callOf { value := fn } args) id,
    hcall.thenText (has.thenText hid), ?_, ?_⟩
  · intro depth hdepth rest hrest
    obtain ⟨d, rfl⟩ : ∃ d, depth = d + 2 := by
      refine ⟨depth - 2, ?_⟩
      simp only [length_append, length_cons] at hdepth
      omega
    have hexpr := exprAt_reads (notExpr_of_operand
      (operand_call (hargs d) { value := fn }) fun _ _ => rfl)
    have hcall : (callOf { value := fn } args).fits (textHeight levels) =
        true :=
      SqlExpr.fits_mono (Nat.le_add_left 2 _) (SqlExpr.fits_succ.mpr hfits)
    exact itemExpr_named (shallowExpr_reads hexpr hcall) id rest hrest
  · simp [extractProjectionsAndAggs, hvalue, hagg]

theorem selectWritten_star : SelectWritten levels [] [] "*" := by
  have hstar : SelectWritten levels [] []
      (Str.joinWith ", " ([()].map fun _ => "*".toList)) :=
    selectWritten_items (fun _ => ([], [])) (cons_ne_nil _ _)
      (fun _ _ => itemWritten_star) rfl rfl
  exact hstar

theorem selectWritten_names {text : Str → Str} {names : List Str}
    (hne : names ≠ []) (h : ∀ n ∈ names, NameText (text n) n) :
    SelectWritten levels names [] (Str.joinWith ", " (names.map text)) :=
  selectWritten_items (fun n => ([n], [])) hne
    (fun n hn => itemWritten_name (h n hn)) (flatMap_singleton' _)
    (flatMap_eq_nil_iff.mpr fun _ _ => rfl)

end SelectLists

section Queries

variable [SqlParser] {levels : Nat} {w : Wording}

theorem groupBy_written {names : List Str}
    (hnames : ∀ g ∈ names, NameText (w.ident g) g) :
    ClauseWritten 2 (fun d => (listOf .comma (shallowExpr levels d)).clause
        [.keyword .GROUP, .keyword .BY])
      (fun es => extractGroupBy (.expressions (es.getD [])) = names)
      (listClause " GROUP BY " (names.map w.ident)) := by
  refine listClause_written (fun g hg => (hnames g hg).written) rfl rfl rfl rfl
    startsLater_exprEnds (fun hnil => hnil ▸ rfl) fun es hes => ?_
  refine filterMap_of_forall₂ (hes.imp ?_)
  rintro g e ⟨id, rfl, rfl⟩
  rfl

private theorem sortText_written {s : SortExpr}
    (h : NameText (w.ident s.field) s.field) :
    Written memberEnds (fun d => orderItem (shallowExpr levels d))
      (fun o => (exprToColumnName o.expr).map (fun field =>
        ({ field, descending := (o.asc.map (!·)).getD false } : SortExpr)) =
          some s) (sortText w s) := by
  obtain ⟨id, hlex, hid⟩ := h
  have hname : ∀ d, Reads exprEnds (shallowExpr levels (d + 1)) [.word id]
      (.identifier id) := fun d => shallowExpr_name id
  obtain ⟨field, descending⟩ := s
  cases descending with
  | false =>
    refine ⟨[.word id], ⟨.identifier id, none⟩, hlex, ?_, ?_⟩
    · intro depth hdepth
      obtain ⟨d, rfl⟩ := Nat.exists_eq_add_of_lt hdepth
      exact orderItem_plain (hname _)
    · simp only [exprToColumnName, hid]
      rfl
  | true =>
    have hdesc : Lexes " DESC" [.keyword .DESC] :=
      ⟨[], .word "DESC", _, rfl, pending_word _, rfl⟩
    have htext : sortText w { field, descending := true } = w.ident field ++
      " DESC" := rfl
    rw [htext]
    refine ⟨_, ⟨.identifier id, some false⟩, hlex.thenText hdesc rfl, ?_, ?_⟩
    · intro depth hdepth
      obtain ⟨d, rfl⟩ := Nat.exists_eq_add_of_lt hdepth
      exact orderItem_desc (hname _)
    · simp only [exprToColumnName, hid]
      rfl

theorem orderBy_written {sort : List SortExpr}
    (hsort : ∀ s ∈ sort, NameText (w.ident s.field) s.field) :
    ClauseWritten 4
      (fun d => (listOf .comma (orderItem (shallowExpr levels d))).clause
        [.keyword .ORDER, .keyword .BY])
      (fun os => ((os.map OrderByKind.expressions).map extractOrderBy).getD
        [] = sort)
      (listClause " ORDER BY " (sort.map (sortText w))) := by
  refine listClause_written (fun s hs => sortText_written (hsort s hs)) rfl rfl
    rfl rfl startsLater_memberEnds (fun hnil => hnil ▸ rfl) fun os hos => ?_
  exact filterMap_of_forall₂ hos

variable [FloatOps] [FloatText]

theorem filterClause_written {rank : Nat} {keyword : Str} {k : Token}
    {filter : Option FilterExpr}
    (hfilter : ∀ f ∈ filter, FilterText (filterToSql w f) f)
    (hdepth : ∀ f ∈ filter, filterDepth f ≤ levels)
    (hkeyword : LexesAll keyword [k])
    (hbreak : startsBreak keyword = true) (hk : clauseRank k = rank + 1) :
    ClauseWritten (rank + 1) (fun d => (shallowExpr levels d).clause [k])
      (fun e => e.bind translateExpr = filter)
          (filterClause w keyword filter) := by
  cases filter with
  | none => exact clauseWritten_none hk rfl
  | some f =>
    exact ((hfilter f rfl).written (hdepth f rfl)).clause hkeyword hbreak hk
      startsLater_exprEnds fun _ he => he

variable [Unicode]

omit [FloatText] in
theorem queryToSubquery_table (items : List SelectItem) (id : Ident)
    (selection having : Option SqlExpr) (groupBy : GroupByExpr)
    (orderBy : Option OrderByKind) (limit : Option LimitClause) :
    queryToSubquery (.mk (.select (.mk items
      [.mk (.table [.identifier id]) []] selection groupBy having)) orderBy
    limit) = .ok {
        table := id.value
        projections := (extractProjectionsAndAggs items).1
        filter := mergeFilters (selection.bind translateExpr) none
        aggregations := (extractProjectionsAndAggs items).2
        groupBy := extractGroupBy groupBy
        having := having.bind translateExpr
        sort := (orderBy.map extractOrderBy).getD []
        limit := limit.bind extractLimit
        offset := limit.bind extractOffset } := rfl

structure Shallow (levels : Nat) (q : SubQuery) : Prop where
  filter : ∀ f ∈ q.filter, filterDepth f ≤ levels
  having : ∀ f ∈ q.having, filterDepth f ≤ levels

theorem sqlToSubquery_written [StandardSql levels] {q : SubQuery}
    {select table : Str}
    {projections : List Str} {aggregations : List AggregationExpr}
    (hselect : SelectWritten levels projections aggregations select)
    (htable : NameText table q.table) (hshallow : Shallow levels q)
    (hfilter : ∀ f ∈ q.filter, FilterText (filterToSql w f) f)
    (hgroupBy : ∀ g ∈ q.groupBy, NameText (w.ident g) g)
    (hhaving : ∀ f ∈ q.having, FilterText (filterToSql w f) f)
    (hsort : ∀ s ∈ q.sort, NameText (w.ident s.field) s.field)
    (hlimit : ∀ n ∈ q.limit, n < 2 ^ 64)
    (hoffset : ∀ n ∈ q.offset, n < 2 ^ 64) (hpass : q.passthrough = none) :
    sqlToSubquery ("SELECT " ++ select ++ " FROM " ++ table ++
        middleClauses w q ++ limitClause q.limit ++ offsetClause q.offset) =
      .ok { q with projections, aggregations } := by
  have hwhere : LexesAll " WHERE " [.keyword .WHERE] := rfl
  have hhave : LexesAll " HAVING " [.keyword .HAVING] := rfl
  have hlimitWord : LexesAll " LIMIT " [.keyword .LIMIT] := rfl
  have hoffsetWord : LexesAll " OFFSET " [.keyword .OFFSET] := rfl
  obtain ⟨items, name, selection, groupBy, having, orderBy, limit, offset,
    hitems, hname,
    hselection, hgroup, hhaving, hsort, hlimit, hoffset, hparse⟩ :=
    standardParse_written hselect htable
      (filterClause_written hfilter hshallow.filter hwhere rfl rfl)
    (groupBy_written hgroupBy) (filterClause_written hhaving hshallow.having
      hhave rfl rfl) (orderBy_written hsort)
    (number_written hlimit hlimitWord rfl rfl)
    (number_written hoffset hoffsetWord rfl rfl)
  have htext : ("SELECT " ++ select ++ " FROM " ++ table ++
      middleClauses w q ++ limitClause q.limit ++ offsetClause q.offset : Str) =
        "SELECT " ++ select ++ " FROM " ++ table ++
        filterClause w " WHERE " q.filter ++
        listClause " GROUP BY " (q.groupBy.map w.ident) ++
        filterClause w " HAVING " q.having ++
        listClause " ORDER BY " (q.sort.map (sortText w)) ++
        numberClause " LIMIT " q.limit ++ numberClause " OFFSET " q.offset := by
    rw [limitClause_eq, offsetClause_eq]
    simp [middleClauses]
  rw [htext, sqlToSubquery, StandardSql.parses hparse]
  refine (queryToSubquery_table ..).trans (congrArg Except.ok ?_)
  rw [extractLimit_limitOf, extractOffset_limitOf, hitems, hname, hselection,
    hgroup, hhaving, hsort, hlimit, hoffset, mergeFilters_none]
  cases q
  cases hpass
  rfl

end Queries

end Fuse.Engine
