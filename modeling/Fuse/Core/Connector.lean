import Fuse.Foundation.Text

/-!
# Sub-queries

The expression types a connector is asked to evaluate
(`fuse-core/src/connector.rs`), and the error a connector answers with.
A double is its bit pattern; its arithmetic is left to the platform.
-/

namespace Fuse.Core

open Foundation

def F64 := BitVec 64
  deriving DecidableEq, Repr

/-- `-f` flips the sign bit. -/
def F64.neg (f : F64) : F64 := BitVec.xor f (BitVec.ofNat 64 (2 ^ 63))

theorem F64.neg_neg (f : F64) : f.neg.neg = f := by
  have hxor : ∀ b m : BitVec 64, (b ^^^ m) ^^^ m = b := fun b m => by
    rw [BitVec.xor_assoc, BitVec.xor_self, BitVec.xor_zero]
  exact hxor f _

/-- `f.abs()` clears the sign bit. -/
def F64.abs (f : F64) : F64 := BitVec.and f (BitVec.ofNat 64 (2 ^ 63 - 1))

/-- `f64::EPSILON`, two to the power -52. -/
def F64.epsilon : F64 := BitVec.ofNat 64 0x3CB0000000000000

def F64.zero : F64 := BitVec.ofNat 64 0

/-- Arithmetic and decimal text of doubles, as IEEE 754 and the standard
library define them. -/
class FloatOps where
  parse : Str → Option F64
  add : F64 → F64 → F64
  sub : F64 → F64 → F64
  lt : F64 → F64 → Bool
  le : F64 → F64 → Bool
  ofInt64 : Int64 → F64
  jsonText : F64 → Option Str

@[reducible] def integersOnly : FloatOps where
  parse _ := none
  add x _ := x
  sub x _ := x
  lt _ _ := false
  le _ _ := false
  ofInt64 _ := F64.zero
  jsonText _ := none

inductive ScalarValue where
  | null
  | boolean (b : Bool)
  | int64 (n : Int64)
  | float64 (f : F64)
  | utf8 (s : Str)
  deriving DecidableEq, Repr

inductive ComparisonOp where
  | eq | neq | lt | lte | gt | gte | like | iLike | contains
  deriving DecidableEq, Repr

inductive FilterExpr where
  | and (left right : FilterExpr)
  | or (left right : FilterExpr)
  | not (inner : FilterExpr)
  | comparison (field : Str) (op : ComparisonOp) (value : ScalarValue)
  | inList (field : Str) (values : List ScalarValue)
  | isNull (field : Str)
  | isNotNull (field : Str)
  deriving DecidableEq, Repr

inductive AggFunction where
  | count | countDistinct | sum | avg | min | max | approxCountDistinct
  | approxPercentile (percentile : F64)
  deriving DecidableEq, Repr

structure AggregationExpr where
  function : AggFunction
  field : Option Str
  aliasName : Str
  deriving DecidableEq, Repr

structure SortExpr where
  field : Str
  descending : Bool
  deriving DecidableEq, Repr

structure RangeParams where
  start : Str
  stop : Str
  step : Str
  deriving DecidableEq, Repr

structure SubQuery where
  table : Str
  projections : List Str := []
  filter : Option FilterExpr := none
  aggregations : List AggregationExpr := []
  groupBy : List Str := []
  having : Option FilterExpr := none
  sort : List SortExpr := []
  limit : Option Nat := none
  offset : Option Nat := none
  passthrough : Option RangeParams := none
  deriving DecidableEq, Repr

inductive ConnectorError where
  | queryFailed (message : Str)
  | schemaDiscovery (message : Str)
  | auth (message : Str)
  | connection (message : Str)
  | channelClosed
  | unsupported (message : Str)
  | arrow (message : Str)
  | other (message : Str)
  deriving DecidableEq, Repr

def ConnectorError.toText : ConnectorError → Str
  | queryFailed m => "query execution failed: " ++ m
  | schemaDiscovery m => "schema discovery failed: " ++ m
  | auth m => "authentication failed: " ++ m
  | connection m => "connection failed: " ++ m
  | channelClosed => "streaming channel closed"
  | unsupported m => "unsupported operation: " ++ m
  | arrow m => m
  | other m => m

end Fuse.Core
