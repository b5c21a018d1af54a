import Fuse.Core.Filter

/-!
# Scalars of one type

The scalars as cells: values of one type compare in the order of the type,
doubles as IEEE 754 has it, and a comparison with NULL or across types is
unknown.  Texts are ordered by their characters, which is the order of their
UTF-8 bytes.
-/

namespace Fuse.Core

open Foundation

inductive ScalarType where
  | boolean | int64 | float64 | utf8
  deriving DecidableEq, Repr

namespace ScalarValue

def type? : ScalarValue → Option ScalarType
  | null => none
  | boolean _ => some .boolean
  | int64 _ => some .int64
  | float64 _ => some .float64
  | utf8 _ => some .utf8

end ScalarValue

def ComparisonOp.isOrder : ComparisonOp → Bool
  | .like => false
  | .iLike => false
  | .contains => false
  | _ => true

section Cells

variable [FloatOps]

def F64.holds : ComparisonOp → F64 → F64 → Bool
  | .eq, a, b => FloatOps.le a b && FloatOps.le b a
  | .neq, a, b => !(FloatOps.le a b && FloatOps.le b a)
  | .lt, a, b => FloatOps.lt a b
  | .lte, a, b => FloatOps.le a b
  | .gt, a, b => FloatOps.lt b a
  | .gte, a, b => FloatOps.le b a
  | _, _, _ => false

def typedCompare (op : ComparisonOp) : ScalarValue → ScalarValue → Truth
  | .boolean a, .boolean b => scalarCompare.byOrder op (compare a b)
  | .int64 a, .int64 b => scalarCompare.byOrder op (compare a.toInt b.toInt)
  | .float64 a, .float64 b => .ofBool (F64.holds op a b)
  | .utf8 a, .utf8 b => scalarCompare.byOrder op (compare a b)
  | _, _ => .unknown

theorem F64.holds_converse (op : ComparisonOp) (a b : F64) :
    F64.holds op.converse b a = F64.holds op a b := by
  cases op <;> simp [F64.holds, ComparisonOp.converse, Bool.and_comm]

def typedCells : CellModel ScalarValue where
  isNull s := s == .null
  ofScalar := id
  compare := typedCompare
  text := ScalarValue.text?
  compare_converse op a b := by
    cases a <;> cases b <;> try rfl
    case float64.float64 a b =>
      simp [typedCompare, F64.holds_converse]
    all_goals
      simp only [typedCompare]
      rw [← byOrder_converse op, ← Std.OrientedCmp.eq_swap]
  text_utf8 := ScalarValue.text?_utf8

variable {op : ComparisonOp}

theorem typedCompare_definite {a b : ScalarValue} (hop : op.isOrder = true)
    (htype : a.type? = b.type?) (hnull : b ≠ .null) :
    typedCompare op a b ≠ .unknown := by
  have hordered : ∀ o : Ordering, scalarCompare.byOrder op o ≠ .unknown := by
    intro o
    revert hop
    cases op <;> cases o <;> decide
  cases a with
  | null => cases b <;> first | exact absurd rfl hnull | cases htype
  | boolean x | int64 x => cases b <;> first | exact hordered _ | cases htype
  | float64 x =>
    cases b with
    | float64 y =>
      simp only [typedCompare]
      cases F64.holds op x y <;> decide
    | _ => cases htype
  | utf8 x => cases b <;> first | exact hordered _ | cases htype

theorem typedCompare_neq {a b : ScalarValue} :
    typedCompare .neq a b = (typedCompare .eq a b).not := by
  have hordered : ∀ o : Ordering, scalarCompare.byOrder .neq o =
      (scalarCompare.byOrder .eq o).not := by decide
  cases a <;> cases b <;> first
    | rfl
    | exact hordered _
    | skip
  case float64.float64 a b =>
    simp only [typedCompare, F64.holds]
    cases (FloatOps.le a b && FloatOps.le b a) <;> rfl

theorem typedCompare_null_left {b : ScalarValue} :
    typedCompare op .null b = .unknown := by
  cases b <;> rfl

theorem typedCompare_null_right {a : ScalarValue} :
    typedCompare op a .null = .unknown := by
  cases a <;> rfl

end Cells

end Fuse.Core
