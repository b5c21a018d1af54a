import Fuse.Engine.SqlLexer

/-!
# The grammar of SQL queries

Queries over one table by recursive descent, with the standard precedence:
`OR` binds less than `AND`, then `NOT`, then predicates, then signs.  A phrase
inside parentheses is read by a parser that is given; its depth is bounded by
the number of tokens.  The parser library gives up a text that is nested too
deep for it, so the height of the trees is bounded as well.
-/

namespace Fuse.Engine

open Foundation Fuse.Core List

section Levels

-- the parser of what stands in parentheses
variable (expr : Parse Token SqlExpr)

def argsOf (treatment : Option DuplicateTreatment) (es : List SqlExpr) :
    FunctionArguments SqlExpr :=
  .list treatment (es.map .expr)

def functionArgs : Parse Token (FunctionArguments SqlExpr) := fun ts =>
  match ts with
  | .star :: ts => some (.list none [.wildcard], ts)
  | .keyword .DISTINCT :: ts =>
    (argsOf (some .distinct) <$> Parse.listOf .comma expr).run ts
  | ts => (argsOf none <$> Parse.listOf .comma expr).run ts

def callOf (name : Ident) (args : FunctionArguments SqlExpr) : SqlExpr :=
  .function { name := [.identifier name], args }

def functionCall (name : Ident) : Parse Token SqlExpr :=
  callOf name <$> (functionArgs expr).before [.rparen]

def operandOf : List Token → Option (SqlExpr × List Token)
  | .keyword .NULL :: ts => some (.value .null, ts)
  | .keyword .TRUE :: ts => some (.value (.boolean true), ts)
  | .keyword .FALSE :: ts => some (.value (.boolean false), ts)
  | .number n :: ts => some (.value (.number n false), ts)
  | .string s :: ts => some (.value (.singleQuotedString s), ts)
  | .minus :: ts => (operandOf ts).map fun r => (.unaryOp .minus r.1, r.2)
  | .lparen :: ts => (SqlExpr.nested <$> expr.before [.rparen]).run ts
  | .word name :: .lparen :: ts => (functionCall expr name).run ts
  | .word name :: ts => some (.identifier name, ts)
  | _ => none

def operand : Parse Token SqlExpr := operandOf expr

def predicateTail (left : SqlExpr) : Parse Token SqlExpr := fun ts =>
  match ts with
  | .compare op :: ts => (SqlExpr.binaryOp left op <$> operand expr).run ts
  | .keyword .IS :: .keyword .NULL :: ts => some (.isNull left, ts)
  | .keyword .IS :: .keyword .NOT :: .keyword .NULL :: ts =>
    some (.isNotNull left, ts)
  | .keyword .IN :: .lparen :: ts =>
    ((SqlExpr.inList left · false) <$> (Parse.listOf .comma expr).before
      [.rparen]).run ts
  | .keyword .LIKE :: ts =>
    ((SqlExpr.like false false left · none) <$> operand expr).run ts
  | .keyword .ILIKE :: ts =>
    ((SqlExpr.iLike false false left · none) <$> operand expr).run ts
  | ts => some (left, ts)

def predicate : Parse Token SqlExpr := do
  let left ← operand expr
  predicateTail expr left

def notExprOf : List Token → Option (SqlExpr × List Token)
  | .keyword .NOT :: ts =>
    (notExprOf ts).map fun r => (.unaryOp .not r.1, r.2)
  | ts => (predicate expr).run ts

def notExpr : Parse Token SqlExpr := notExprOf expr

def andExpr : Parse Token SqlExpr :=
  Parse.infixLeft (.keyword .AND) (.binaryOp · .and ·) (notExpr expr)

def orExpr : Parse Token SqlExpr :=
  Parse.infixLeft (.keyword .OR) (.binaryOp · .or ·) (andExpr expr)

end Levels

def exprAt : Nat → Parse Token SqlExpr
  | 0 => failure
  | depth + 1 => orExpr (exprAt depth)

def argExprs {E : Type} : FunctionArguments E → List E
  | .list _ args => args.filterMap fun
    | .expr e => some e
    | _ => none
  | _ => []

def SqlExpr.parts : SqlExpr → List SqlExpr
  | .unaryOp _ e | .isNull e | .isNotNull e | .nested e => [e]
  | .binaryOp l _ r => [l, r]
  | .inList e list _ => e :: list
  | .between e _ low high => [e, low, high]
  | .like _ _ e pattern _ | .iLike _ _ e pattern _ => [e, pattern]
  | .function f => argExprs f.args
  | .identifier _ | .compoundIdentifier _ | .value _ | .other _ => []

def SqlExpr.fits : Nat → SqlExpr → Bool
  | 0, _ => false
  | height + 1, e => e.parts.all (fits height)

theorem SqlExpr.fits_succ {height : Nat} {e : SqlExpr} :
    e.fits (height + 1) = true ↔ ∀ x ∈ e.parts, x.fits height = true :=
  all_eq_true

theorem SqlExpr.fits_mono {height height' : Nat} (hle : height ≤ height')
    {e : SqlExpr} (h : e.fits height = true) : e.fits height' = true := by
  induction height generalizing e height' with
  | zero => cases h
  | succ height ih =>
    obtain ⟨k, rfl⟩ := Nat.exists_eq_add_of_lt hle
    refine fits_succ.mpr fun x hx => ?_
    exact ih (Nat.le_add_right height k) (fits_succ.mp h x hx)

/-- A connective adds itself and its parentheses; below it stand an operator,
a sign and a number. -/
def textHeight (levels : Nat) : Nat := 2 * levels + 3

/-- Expressions no higher than `levels` connectives above each other. -/
def shallowExpr (levels depth : Nat) : Parse Token SqlExpr := do
  let e ← exprAt depth
  if e.fits (textHeight levels) then return e else failure

section Clauses

variable (expr : Parse Token SqlExpr)

def aliasOf : Parse Token (Option Ident) := fun ts =>
  match ts with
  | .keyword .AS :: .word name :: ts => some (some name, ts)
  | ts => some (none, ts)

def itemOf (e : SqlExpr) : Option Ident → SelectItem
  | some name => .exprWithAlias e name
  | none => .unnamedExpr e

def itemExpr : Parse Token SelectItem := do
  let e ← expr
  let name ← aliasOf
  return itemOf e name

def selectItem : Parse Token SelectItem := fun ts =>
  match ts with
  | .star :: ts => some (.wildcard, ts)
  | ts => (itemExpr expr).run ts

def tableName : Parse Token ObjectName := fun ts =>
  match ts with
  | .word name :: ts => some ([.identifier name], ts)
  | _ => none

def direction : Parse Token (Option Bool) := fun ts =>
  match ts with
  | .keyword .ASC :: ts => some (some true, ts)
  | .keyword .DESC :: ts => some (some false, ts)
  | ts => some (none, ts)

def orderItem : Parse Token OrderByExpr := do
  let e ← expr
  let asc ← direction
  return .mk e asc

def limitOf : Option SqlExpr → Option SqlExpr → Option LimitClause
  | none, none => none
  | limit, offset => some (.limitOffset limit offset)

def queryPhrase : Parse Token Query := do
  let items ←
    (Parse.listOf .comma (selectItem expr)).after [.keyword .SELECT]
  let table ← tableName.after [.keyword .FROM]
  let selection ← expr.clause [.keyword .WHERE]
  let groupBy ←
    (Parse.listOf .comma expr).clause [.keyword .GROUP, .keyword .BY]
  let having ← expr.clause [.keyword .HAVING]
  let orderBy ←
    (Parse.listOf .comma (orderItem expr)).clause
      [.keyword .ORDER, .keyword .BY]
  let limit ← (operand expr).clause [.keyword .LIMIT]
  let offset ← (operand expr).clause [.keyword .OFFSET]
  let select := Select.mk items [.mk (.table table) []] selection
    (.expressions (groupBy.getD [])) having
  return .mk (.select select) (orderBy.map .expressions) (limitOf limit offset)

end Clauses

def exprEnds : Token → Bool
  | .comma | .rparen => true
  | .keyword .AS | .keyword .FROM | .keyword .WHERE | .keyword .GROUP
  | .keyword .HAVING | .keyword .ORDER | .keyword .LIMIT | .keyword .OFFSET
  | .keyword .ASC | .keyword .DESC => true
  | _ => false

/-- The tokens that may follow an operand of `AND`. -/
def predicateEnds : Token → Bool
  | .keyword .AND | .keyword .OR => true
  | t => exprEnds t

section Reading

variable {expr : Parse Token SqlExpr} {ok : Token → Bool} {ts us : List Token}
  {a b : SqlExpr}

open Parse

theorem predicateTail_stop {left : SqlExpr} {rest : List Token}
    (h : Follows predicateEnds rest) :
    (predicateTail expr left).run rest = some (left, rest) := by
  cases rest with
  | nil => rfl
  | cons t ts =>
    have ht := h t rfl
    cases t with
    | keyword k => cases k <;> first | rfl | cases ht
    | _ => first | rfl | cases ht

theorem notExpr_run {ts : List Token} {r : SqlExpr × List Token}
    (h : (operand expr).run ts = some r) :
    (notExpr expr).run ts = (predicate expr).run ts := by
  cases ts with
  | nil => cases h
  | cons t ts =>
    cases t with
    | keyword k => cases k <;> first | rfl | cases h
    | _ => rfl

theorem notExpr_of_operand (h : Reads ok (operand expr) ts a)
    (hok : ∀ t, predicateEnds t = true → ok t = true) :
    Reads predicateEnds (notExpr expr) ts a := by
  intro rest hrest
  have hfirst := h rest (hrest.mono hok)
  rw [notExpr_run hfirst, predicate, StateT.run_bind, hfirst]
  exact predicateTail_stop hrest

theorem notExpr_of_tail (h : Reads ok (operand expr) ts a)
    (htail : Reads predicateEnds (predicateTail expr a) us b)
    (hus : Follows ok us) (hok : ∀ t, predicateEnds t = true → ok t = true) :
    Reads predicateEnds (notExpr expr) (ts ++ us) b := by
  intro rest hrest
  have hfirst := h (us ++ rest) (hus.append (hrest.mono hok))
  rw [append_assoc, notExpr_run hfirst, predicate, StateT.run_bind, hfirst]
  exact htail rest hrest

theorem notExpr_not (h : Reads predicateEnds (notExpr expr) ts a) :
    Reads predicateEnds (notExpr expr) (.keyword .NOT :: ts)
    (.unaryOp .not a) := by
  intro rest hrest
  change ((notExpr expr).run (ts ++ rest)).map _ = _
  rw [h rest hrest]
  rfl

theorem notExpr_nested (h : Reads exprEnds expr ts a) :
    Reads predicateEnds (notExpr expr) (.lparen :: (ts ++ [.rparen]))
    (.nested a) := by
  have hoperand : Reads (fun _ => true) (operand expr)
      (.lparen :: (ts ++ [.rparen])) (.nested a) :=
    (h.before (k := .rparen) rfl []).map SqlExpr.nested
  exact notExpr_of_operand hoperand fun _ _ => rfl

theorem exprEnds_le (t : Token) (ht : exprEnds t = true) :
    ((predicateEnds t && t ≠ .keyword .AND) && t ≠ .keyword .OR) = true := by
  cases t with
  | keyword k => cases k <;> first | rfl | cases ht
  | _ => first | rfl | cases ht

variable {depth : Nat}

theorem exprAt_reads (h : Reads predicateEnds (notExpr (exprAt depth)) ts a) :
    Reads exprEnds (exprAt (depth + 1)) ts a :=
  ((h.infixLeft rfl).infixLeft rfl).mono exprEnds_le

theorem exprAt_and (hl : Reads predicateEnds (notExpr (exprAt depth)) ts a)
    (hr : Reads predicateEnds (notExpr (exprAt depth)) us b) :
    Reads exprEnds (exprAt (depth + 1)) (ts ++ .keyword .AND :: us)
    (.binaryOp a .and b) :=
  ((infixLeft_reads rfl hl hr).infixLeft rfl).mono exprEnds_le

theorem exprAt_or (hl : Reads predicateEnds (notExpr (exprAt depth)) ts a)
    (hr : Reads predicateEnds (notExpr (exprAt depth)) us b) :
    Reads exprEnds (exprAt (depth + 1)) (ts ++ .keyword .OR :: us)
    (.binaryOp a .or b) :=
  (infixLeft_reads rfl (hl.infixLeft rfl) (hr.infixLeft rfl)).mono exprEnds_le

theorem exprAt_operand (h : ∀ expr, Reads ok (operand expr) ts a)
    (hok : ∀ t, predicateEnds t = true → ok t = true) :
    Reads exprEnds (exprAt (depth + 1)) ts a :=
  exprAt_reads (notExpr_of_operand (h _) hok)

theorem operand_name (name : Ident) (expr : Parse Token SqlExpr) :
    Reads (· ≠ .lparen) (operand expr) [.word name] (.identifier name) := by
  intro rest hrest
  cases rest with
  | nil => rfl
  | cons t ts =>
    have ht := hrest t rfl
    cases t with
    | lparen => cases ht
    | _ => rfl

theorem operand_call {args : FunctionArguments SqlExpr}
    (h : Reads (· = .rparen) (functionArgs expr) ts args) (name : Ident) :
    Reads (fun _ => true) (operand expr)
      (.word name :: .lparen :: (ts ++ [.rparen])) (callOf name args) :=
  (h.before (k := .rparen) rfl []).map (callOf name)

theorem predicateEnds_ne_lparen (t : Token) (ht : predicateEnds t = true) :
    decide (t ≠ .lparen) = true := by
  cases t with
  | lparen => cases ht
  | _ => rfl

theorem exprAt_name (name : Ident) :
    Reads exprEnds (exprAt (depth + 1)) [.word name] (.identifier name) :=
  exprAt_operand (operand_name name) predicateEnds_ne_lparen

variable {levels : Nat}

theorem shallowExpr_reads (h : Reads ok (exprAt depth) ts a)
    (ha : a.fits (textHeight levels) = true) :
    Reads ok (shallowExpr levels depth) ts a := by
  intro rest hrest
  rw [shallowExpr, StateT.run_bind, h rest hrest]
  change (if a.fits _ then pure a else failure : Parse Token SqlExpr).run _ = _
  rw [if_pos ha]
  rfl

theorem shallowExpr_deep (h : Reads ok (exprAt depth) ts a)
    (ha : a.fits (textHeight levels) = false) :
    (shallowExpr levels depth).run ts = none := by
  rw [shallowExpr, StateT.run_bind, h.run_end]
  change (if a.fits _ then pure a else failure : Parse Token SqlExpr).run _ = _
  rw [if_neg (ne_true_of_eq_false ha)]
  rfl

theorem shallowExpr_name (name : Ident) :
    Reads exprEnds (shallowExpr levels (depth + 1)) [.word name]
      (.identifier name) :=
  shallowExpr_reads (exprAt_name name) rfl

theorem listOf_name (name : Ident) :
    Reads (· = .rparen) (listOf .comma (exprAt (depth + 1))) [.word name]
    [.identifier name] := by
  refine ((exprAt_name name).listOf rfl).mono fun t ht => ?_
  rw [of_decide_eq_true ht]
  rfl

theorem functionArgs_name (name : Ident) :
    Reads (· = .rparen) (functionArgs (exprAt (depth + 1))) [.word name]
      (.list none [.expr (.identifier name)]) :=
  (listOf_name name).map (argsOf none)

theorem functionArgs_distinct (name : Ident) :
    Reads (· = .rparen) (functionArgs (exprAt (depth + 1)))
    [.keyword .DISTINCT, .word name]
      (.list (some .distinct) [.expr (.identifier name)]) :=
  (listOf_name name).map (argsOf (some .distinct))

def memberEnds : Token → Bool
  | .comma | .keyword .FROM | .keyword .LIMIT | .keyword .OFFSET => true
  | _ => false

theorem memberEnds_le (t : Token) (ht : memberEnds t = true) :
    exprEnds t = true := by
  cases t with
  | keyword k => cases k <;> first | rfl | cases ht
  | _ => first | rfl | cases ht

theorem aliasOf_none : Reads memberEnds aliasOf [] none := by
  intro rest hrest
  cases rest with
  | nil => rfl
  | cons t ts =>
    have ht := hrest t rfl
    cases t with
    | keyword k => cases k <;> first | rfl | cases ht
    | _ => rfl

theorem direction_none : Reads memberEnds direction [] none := by
  intro rest hrest
  cases rest with
  | nil => rfl
  | cons t ts =>
    have ht := hrest t rfl
    cases t with
    | keyword k => cases k <;> first | rfl | cases ht
    | _ => rfl

theorem itemExpr_unnamed (h : Reads exprEnds expr ts a) :
    Reads memberEnds (itemExpr expr) ts (.unnamedExpr a) := by
  have hitem := h.pair itemOf aliasOf_none (follows_nil _) memberEnds_le
  rwa [append_nil] at hitem

theorem itemExpr_named (h : Reads exprEnds expr ts a) (name : Ident) :
    Reads memberEnds (itemExpr expr) (ts ++ [.keyword .AS, .word name])
      (.exprWithAlias a name) := by
  have halias : Reads memberEnds aliasOf [.keyword .AS, .word name]
    (some name) := fun _ _ => rfl
  exact h.pair itemOf halias (follows_cons rfl _) memberEnds_le

theorem orderItem_plain (h : Reads exprEnds expr ts a) :
    Reads memberEnds (orderItem expr) ts ⟨a, none⟩ := by
  have hitem := h.pair OrderByExpr.mk direction_none
    (follows_nil _) memberEnds_le
  rwa [append_nil] at hitem

theorem orderItem_desc (h : Reads exprEnds expr ts a) :
    Reads memberEnds (orderItem expr) (ts ++ [.keyword .DESC])
    ⟨a, some false⟩ := by
  have hdesc : Reads memberEnds direction [.keyword .DESC] (some false) :=
    fun _ _ => rfl
  exact h.pair OrderByExpr.mk hdesc (follows_cons rfl _) memberEnds_le

def clauseRank : Token → Nat
  | .keyword .WHERE => 1
  | .keyword .GROUP => 2
  | .keyword .HAVING => 3
  | .keyword .ORDER => 4
  | .keyword .LIMIT => 5
  | .keyword .OFFSET => 6
  | _ => 0

def startsLater (rank : Nat) (t : Token) : Bool := rank < clauseRank t

theorem startsLater_mono {i j : Nat} (hij : i ≤ j) (t : Token)
    (ht : startsLater j t = true) : startsLater i t = true :=
  decide_eq_true (Nat.lt_of_le_of_lt hij (of_decide_eq_true ht))

theorem startsLater_exprEnds {rank : Nat} (t : Token)
    (ht : startsLater rank t = true) : exprEnds t = true := by
  have hrank : clauseRank t ≠ 0 :=
    Nat.ne_of_gt (Nat.lt_of_le_of_lt (Nat.zero_le _) (of_decide_eq_true ht))
  cases t with
  | keyword k => cases k <;> first | rfl | exact absurd rfl hrank
  | _ => first | rfl | exact absurd rfl hrank

theorem startsLater_memberEnds (t : Token) (ht : startsLater 4 t = true) :
    memberEnds t = true := by
  cases t with
  | keyword k => cases k <;> first | rfl | cases ht
  | _ => cases ht

theorem startsLater_ne_comma {rank : Nat} (t : Token)
    (ht : startsLater rank t = true) : decide (t ≠ .comma) = true := by
  cases t with
  | comma => exact absurd (of_decide_eq_true ht) (Nat.not_lt_zero _)
  | _ => rfl

def queryTokens (us : List Token) (name : Ident)
    (us₁ us₂ us₃ us₄ us₅ us₆ : List Token) : List Token :=
  ([.keyword .SELECT] ++ us) ++ (([.keyword .FROM] ++ [.word name]) ++
    (us₁ ++ (us₂ ++ (us₃ ++ (us₄ ++ (us₅ ++ (us₆ ++ [])))))))

theorem queryPhrase_reads {items : List SelectItem} {name : Ident}
    {selection having limit offset : Option SqlExpr}
    {groupBy : Option (List SqlExpr)} {orderBy : Option (List OrderByExpr)}
    {us us₁ us₂ us₃ us₄ us₅ us₆ : List Token}
    (hitems : Reads (· = .keyword .FROM)
      (listOf .comma (selectItem expr)) us items)
    (hselection : Reads (startsLater 1)
      (expr.clause [.keyword .WHERE]) us₁ selection)
    (hgroupBy : Reads (startsLater 2)
      ((listOf .comma expr).clause [.keyword .GROUP, .keyword .BY])
      us₂ groupBy) (hhaving : Reads (startsLater 3)
      (expr.clause [.keyword .HAVING]) us₃ having)
    (horderBy : Reads (startsLater 4)
      ((listOf .comma (orderItem expr)).clause [.keyword .ORDER, .keyword .BY])
      us₄ orderBy)
    (hlimit : Reads (startsLater 5)
      ((operand expr).clause [.keyword .LIMIT]) us₅ limit)
    (hoffset : Reads (startsLater 6)
      ((operand expr).clause [.keyword .OFFSET]) us₆ offset)
    (h₂ : Follows (startsLater 1) us₂) (h₃ : Follows (startsLater 2) us₃)
    (h₄ : Follows (startsLater 3) us₄) (h₅ : Follows (startsLater 4) us₅)
    (h₆ : Follows (startsLater 5) us₆) :
    Reads (fun _ => false) (queryPhrase expr)
    (queryTokens us name us₁ us₂ us₃ us₄ us₅ us₆)
      (.mk (.select (.mk items [.mk (.table [.identifier name]) []] selection
        (.expressions (groupBy.getD [])) having))
        (orderBy.map .expressions) (limitOf limit offset)) := by
  have hname : Reads (fun _ => true) tableName [.word name]
    [.identifier name] := fun _ _ => rfl
  have hnil : ∀ ok : Token → Bool, Follows ok [] := follows_nil
  have h₅' : Follows (startsLater 4) (us₅ ++ (us₆ ++ [])) :=
    h₅.append ((h₆.append (hnil _)).mono (startsLater_mono (by decide)))
  have h₄' : Follows (startsLater 3) (us₄ ++ (us₅ ++ (us₆ ++ []))) :=
    h₄.append (h₅'.mono (startsLater_mono (by decide)))
  have h₃' : Follows (startsLater 2) (us₃ ++ (us₄ ++ (us₅ ++ (us₆ ++ [])))) :=
    h₃.append (h₄'.mono (startsLater_mono (by decide)))
  have h₂' : Follows (startsLater 1)
      (us₂ ++ (us₃ ++ (us₄ ++ (us₅ ++ (us₆ ++ []))))) :=
    h₂.append (h₃'.mono (startsLater_mono (by decide)))
  unfold queryPhrase
  refine (hitems.after [.keyword .SELECT]).bind ?_ (follows_cons rfl _) nofun
  refine (hname.after [.keyword .FROM]).bind ?_ (fun _ _ => rfl) nofun
  refine hselection.bind ?_ h₂' nofun
  refine hgroupBy.bind ?_ h₃' nofun
  refine hhaving.bind ?_ h₄' nofun
  refine horderBy.bind ?_ h₅' nofun
  refine hlimit.bind ?_ (h₆.append (hnil _)) nofun
  exact hoffset.bind (reads_pure _ _) (hnil _) nofun

theorem queryPhrase_where (h : expr.run ts = none) (id : Ident) :
    (queryPhrase expr).run (.keyword .SELECT :: .star :: .keyword .FROM ::
      .word id :: .keyword .WHERE :: ts) = none := by
  change ((some <$> expr).run ts).bind _ = none
  rw [StateT.run_map, h]
  rfl

end Reading

def standardParse (levels : Nat) (sql : Str) : Option Query := do
  let tokens ← tokenize sql
  match (queryPhrase (shallowExpr levels tokens.length)).run tokens with
  | some (query, []) => some query
  | _ => none

section Parser

variable {levels : Nat} {sql : Str} {tokens : List Token}

theorem standardParse_eq {query : Query} {ok : Token → Bool}
    (hlex : Lexes sql tokens) (h : Parse.Reads ok
      (queryPhrase (shallowExpr levels tokens.length)) tokens query) :
    standardParse levels sql = some query := by
  have htokens : tokenize sql = some tokens := Transducer.EmitsBefore.run hlex
  simp [standardParse, htokens, h.run_end]

theorem standardParse_none (hlex : Lexes sql tokens)
    (h : (queryPhrase (shallowExpr levels tokens.length)).run tokens = none) :
    standardParse levels sql = none := by
  have htokens : tokenize sql = some tokens := Transducer.EmitsBefore.run hlex
  simp [standardParse, htokens, h]

/-- The parser library reads these queries as the grammar does, and prints a
name without quotes as it is.  Its recursion limit of 50 leaves room for
`levels` up to 20. -/
class StandardSql (levels : outParam Nat) [SqlParser] : Prop where
  parses : ∀ {sql : Str} {query : Query},
    standardParse levels sql = some query →
    SqlParser.parseSql sql = .ok [.query query]
  plainName : ∀ name : Str,
    SqlParser.objectNameToString [.identifier { value := name }] = name

@[reducible] def standardParser (levels : Nat) : SqlParser where
  parseSql sql := match standardParse levels sql with
    | some query => .ok [.query query]
    | none => .error "recursion limit exceeded"
  exprToString
    | .identifier id => id.value
    | .other text => text
    | _ => "expr"
  objectNameToString name := name.flatMap fun
    | .identifier id => id.value
    | .function text => text

theorem standardParser_standard (levels : Nat) :
    @StandardSql levels (standardParser levels) := by
  let := standardParser levels
  refine ⟨fun {sql query} h => ?_, fun name => append_nil name⟩
  change (match standardParse levels sql with
    | some query => Except.ok [Statement.query query]
    | none => .error "recursion limit exceeded".toList) = _
  rw [h]

end Parser

end Fuse.Engine
