import Fuse.Core.Connector
import Fuse.Foundation.Kleene

/-!
# The meaning of a filter

What a connector that evaluates a `FilterExpr` exactly makes of it on one row.
A row gives every field a cell.  Cells are of any type: a `CellModel` says
which are NULL, which cell a scalar stands for, how cells compare and which
carry text.
-/

namespace Fuse.Core

open Foundation

/-- The order comparisons of `ComparisonOp`, read from the other side. -/
def ComparisonOp.converse : ComparisonOp → ComparisonOp
  | .lt => .gt
  | .lte => .gte
  | .gt => .lt
  | .gte => .lte
  | other => other

def conjuncts : FilterExpr → List FilterExpr
  | .and l r => conjuncts l ++ conjuncts r
  | e => [e]

def filterFields : FilterExpr → List Str
  | .and l r => filterFields l ++ filterFields r
  | .or l r => filterFields l ++ filterFields r
  | .not f => filterFields f
  | .comparison field _ _ => [field]
  | .inList field _ => [field]
  | .isNull field => [field]
  | .isNotNull field => [field]

structure CellModel (C : Type) where
  isNull : C → Bool
  ofScalar : ScalarValue → C
  compare : ComparisonOp → C → C → Truth
  text : C → Option Str
  compare_converse : ∀ op a b, compare op.converse b a = compare op a b
  text_utf8 : ∀ s, text (ofScalar (.utf8 s)) = some s

inductive LikeToken where
  | anyChars
  | anyChar
  | char (c : Char)
  deriving DecidableEq, Repr

/-- Read a pattern; a character of `escape` makes the next one literal. -/
def likeTokens (escape : Str) (escaped : Bool) : Str → List LikeToken
  | [] => []
  | c :: pattern =>
    if escaped then .char c :: likeTokens escape false pattern
    else if c ∈ escape then likeTokens escape true pattern
    else if c = '%' then .anyChars :: likeTokens escape false pattern
    else if c = '_' then .anyChar :: likeTokens escape false pattern
    else .char c :: likeTokens escape false pattern

def likeMatches (same : Char → Char → Bool) : List LikeToken → Str → Bool
  | [], s => s.isEmpty
  | .anyChars :: tokens, s => s.tails.any (likeMatches same tokens)
  | .anyChar :: tokens, _ :: s => likeMatches same tokens s
  | .char c :: tokens, d :: s => same c d && likeMatches same tokens s
  | _ :: _, [] => false

theorem likeTokens_inert {escape pattern : Str}
    (h : ∀ c ∈ escape, c ∉ pattern) :
    likeTokens escape false pattern = likeTokens [] false pattern := by
  induction pattern with
  | nil => rfl
  | cons c pattern ih =>
    have hc : c ∉ escape := fun hc => h c hc (by simp)
    have htail := ih fun d hd hmem => h d hd (by simp [hmem])
    simp [likeTokens, hc, htail]

namespace CellModel

variable {C : Type} [Unicode] (M : CellModel C)

def sameChar (ignoreCase : Bool) (c d : Char) : Bool :=
  if ignoreCase then toLowercase [c] == toLowercase [d] else c == d

/-- `cell LIKE pattern`, unknown unless both sides carry text. -/
def like (ignoreCase : Bool) (escape : Str) (cell pattern : C) : Truth :=
  match M.text cell, M.text pattern with
  | some s, some p =>
    .ofBool (likeMatches (sameChar ignoreCase) (likeTokens escape false p) s)
  | _, _ => .unknown

def containsText (cell pattern : C) : Truth :=
  match M.text cell, M.text pattern with
  | some s, some p => .ofBool (Str.contains p s)
  | _, _ => .unknown

def satisfies : ComparisonOp → C → C → Truth
  | .like, cell, value => M.like false [] cell value
  | .iLike, cell, value => M.like true [] cell value
  | .contains, cell, value => M.containsText cell value
  | op, cell, value => M.compare op cell value

def filterTruth (row : Str → C) : FilterExpr → Truth
  | .and l r => (filterTruth row l).and (filterTruth row r)
  | .or l r => (filterTruth row l).or (filterTruth row r)
  | .not f => (filterTruth row f).not
  | .comparison field op value =>
    M.satisfies op (row field) (M.ofScalar value)
  | .inList field values =>
    Truth.any (values.map fun v => M.compare .eq (row field) (M.ofScalar v))
  | .isNull field => .ofBool (M.isNull (row field))
  | .isNotNull field => .ofBool (!M.isNull (row field))

end CellModel

def scalarCompare (op : ComparisonOp) : ScalarValue → ScalarValue → Truth
  | .int64 a, .int64 b => byOrder op (compare a.toInt b.toInt)
  | .boolean a, .boolean b => byOrder op (compare a.toNat b.toNat)
  | _, _ => .unknown
where
  byOrder : ComparisonOp → Ordering → Truth
    | .eq, o => .ofBool o.isEq
    | .neq, o => .ofBool o.isNe
    | .lt, o => .ofBool o.isLT
    | .lte, o => .ofBool o.isLE
    | .gt, o => .ofBool o.isGT
    | .gte, o => .ofBool o.isGE
    | _, _ => .unknown

theorem byOrder_converse (op : ComparisonOp) (o : Ordering) :
    scalarCompare.byOrder op.converse o.swap = scalarCompare.byOrder op o := by
  cases op <;> cases o <;> rfl

def ScalarValue.text? : ScalarValue → Option Str
  | .utf8 s => some s
  | _ => none

theorem ScalarValue.text?_utf8 (s : Str) : text? (.utf8 s) = some s := rfl

def scalarCells : CellModel ScalarValue where
  isNull s := s == .null
  ofScalar := id
  compare := scalarCompare
  text := ScalarValue.text?
  compare_converse op a b := by
    cases a <;> cases b <;> try rfl
    all_goals
      simp only [scalarCompare]
      rw [← byOrder_converse op, ← Std.OrientedCmp.eq_swap]
  text_utf8 := ScalarValue.text?_utf8

end Fuse.Core
