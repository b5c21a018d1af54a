import Fuse.Core.Arrow

/-!
# Field policies

The policy engine and the result filter of `fuse-core/src/security.rs`.
-/

namespace Fuse.Core

open Foundation

structure PolicyConfig where
  datasource : Str
  index : Option Str := none
  denyFields : List Str := []
  maskFields : List Str := []
  allowedRoles : List Str := []
  deriving DecidableEq, Repr

inductive FieldPolicy where
  | allow | deny | mask
  deriving DecidableEq, Repr

structure UserContext where
  username : Str
  roles : List Str
  deriving DecidableEq, Repr

abbrev PolicyEngine := List PolicyConfig

namespace PolicyEngine

def matchingPolicies (engine : PolicyEngine) (datasource index : Str) :
    List PolicyConfig :=
  engine.filter fun p =>
    p.datasource = datasource && p.index.all (· = index)

def exempts (policy : PolicyConfig) (user : UserContext) : Bool :=
  !policy.allowedRoles.isEmpty && user.roles.any fun r =>
    r ∈ policy.allowedRoles

def apply (user : UserContext) (field : Str) (verdict : FieldPolicy)
    (policy : PolicyConfig) : FieldPolicy :=
  if exempts policy user then verdict
  else if field ∈ policy.denyFields then .deny
  else if field ∈ policy.maskFields ∧ verdict ≠ .deny then .mask
  else verdict

/-- The verdict `evaluate` gives a field it is asked about. -/
def evaluate (engine : PolicyEngine) (datasource index : Str)
    (user : UserContext) (field : Str) : FieldPolicy :=
  (engine.matchingPolicies datasource index).foldl (apply user field) .allow

end PolicyEngine

section Filter

variable {V : Type} [ArrowKernels V]

def maskText : Str := "****"

def filterRow (kept : List (Nat × Field × FieldPolicy)) (row : Row V) : Row V :=
  kept.map fun (i, _, policy) =>
    let cell := row[i]?.join
    if policy = .mask then cell.map fun v => ArrowKernels.ofText [v] maskText
    else cell

def keptFields (verdict : Str → FieldPolicy) (schema : Schema) :
    List (Nat × Field × FieldPolicy) :=
  (schema.zipIdx.filter fun (f, _) => verdict f.name ≠ .deny).map
    fun (f, i) => (i, f, verdict f.name)

def filteredTypes (kept : List (Nat × Field × FieldPolicy)) (schema : Schema) :
    List DataType :=
  kept.map fun (i, f, policy) =>
    if policy = .mask then .utf8
    else (schema[i]?.map (·.dataType)).getD f.dataType

/--
`ResultFilter::filter_batches`.  The verdicts are those of the first batch's
fields.  A later batch with fewer columns panics, and a masked column that is
not text does not fit the schema.
-/
def filterBatches (engine : PolicyEngine) (batches : List (RecordBatch V))
    (datasource index : Str)
    (user : UserContext) : Fallible (List (RecordBatch V)) :=
  match batches with
  | [] => .ok []
  | first :: _ =>
    let kept := keptFields (engine.evaluate datasource index user)
      first.schema
    let newSchema := kept.map fun (_, f, _) => f
    batches.mapM fun batch =>
      if kept.any fun (i, _, _) => batch.schema.length ≤ i then
        Fallible.panic .indexOutOfBounds
      else
        RecordBatch.tryNew newSchema (filteredTypes kept batch.schema)
          (batch.rows.map (filterRow kept))

end Filter

end Fuse.Core
