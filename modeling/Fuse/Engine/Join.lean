import Fuse.Core.Arrow

/-!
# Hash join

The cross-source join of `fuse-engine/src/join.rs`.  Keys are compared by
their display text.  The output has the build columns first and then the probe
columns without the probe key; a probe column whose name the build side also
has is renamed.
-/

namespace Fuse.Engine

open Foundation Fuse.Core

inductive JoinType where
  | inner | left | right | full | semi | anti
  deriving DecidableEq, Repr

def JoinType.keepsUnmatched : JoinType → Bool
  | .left | .anti | .full => true
  | _ => false

/-- A build row and a probe row, by index; `none` is a row of NULLs. -/
abbrev JoinPair := Option Nat × Option Nat

section Batches

variable {V : Type} [ArrowKernels V]

def keyText (column : Nat) (row : Row V) : Option Str :=
  row[column]?.join.map ArrowKernels.display

def matchingRows (buildKey : Nat) (build : List (Row V)) (key : Str) :
    List Nat :=
  build.findIdxs fun row => keyText buildKey row = some key

def probeRow (joinType : JoinType) (buildKey probeKey : Nat)
    (build : List (Row V)) (index : Nat) (row : Row V) : List JoinPair :=
  let unmatched := if joinType.keepsUnmatched then [(none, some index)] else []
  match keyText probeKey row with
  | none => unmatched
  | some key =>
    match matchingRows buildKey build key with
    | [] => unmatched
    | found =>
      match joinType with
      | .semi => [(none, some index)]
      | .anti => []
      | _ => found.map fun b => (some b, some index)

def unmatchedBuild (build : List (Row V)) (pairs : List JoinPair) :
    List JoinPair :=
  ((List.range build.length).filter fun b =>
    !pairs.any (·.1 = some b)).map fun b => (some b, none)

def joinPairs (joinType : JoinType) (buildKey probeKey : Nat)
    (build probe : List (Row V)) : List JoinPair :=
  let pairs := (probe.zipIdx.map fun (row, index) =>
    probeRow joinType buildKey probeKey build index row).flatten
  if joinType = .full then pairs ++ unmatchedBuild build pairs else pairs

def rowAt (rows : List (Row V)) (width : Nat) : Option Nat → Row V
  | some i => (rows[i]?).getD (List.replicate width none)
  | none => List.replicate width none

def probeName (build : Schema) (name : Str) : Str :=
  if name ∈ build.names then "probe_" ++ name else name

def mergeSchemas (build probe : Schema) (probeKey : Str) (joinType : JoinType) :
    Schema :=
  let widened := joinType = .left || joinType = .full
  build.map (fun f => if widened then { f with nullable := true } else f) ++
    (probe.filter (·.name ≠ probeKey)).map fun f =>
      { name := probeName build f.name, dataType := f.dataType,
        nullable := true }

def skipColumn {α : Type} (index : Nat) (cells : List α) : List α :=
  cells.eraseIdx index

/-- The position of a key column, with the source's message if it is missing. -/
def keyIndex (side : Str) (schema : Schema) (key : Str) : Fallible Nat :=
  match schema.indexOf key with
  | some i => .ok i
  | none =>
    Fallible.fail ("Error during planning: " ++ side ++ " key '" ++ key ++
      "' not found")

def joinSides (build : List (RecordBatch V)) (buildKey : Str)
    (probe : List (RecordBatch V))
    (probeKey : Str) (joinType : JoinType) : Fallible (List (RecordBatch V)) :=
  match build, probe with
  | [], _ => .ok []
  | _, [] => .ok []
  | b :: _, p :: _ => do
      let buildMerged ← RecordBatch.concatBatches b.schema build
      let probeMerged ← RecordBatch.concatBatches p.schema probe
      let buildIdx ← keyIndex "build" b.schema buildKey
      let probeIdx ← keyIndex "probe" p.schema probeKey
      let pairs := joinPairs joinType buildIdx probeIdx buildMerged.rows
        probeMerged.rows
      if joinType = .semi || joinType = .anti then
        return [probeMerged.gather (pairs.filterMap (·.2))]
      -- gathering a NULL row still reads row 0, so it needs one
      else if pairs.any (·.1 = none) && buildMerged.rows.isEmpty ||
          pairs.any (·.2 = none) && probeMerged.rows.isEmpty &&
            !(skipColumn probeIdx p.schema).isEmpty then
        Fallible.panic .indexOutOfBounds
      else
        let rows := pairs.map fun (i, j) =>
          rowAt buildMerged.rows b.schema.length i ++
            skipColumn probeIdx (rowAt probeMerged.rows p.schema.length j)
        let joined ← RecordBatch.tryNew
          (mergeSchemas b.schema p.schema probeKey joinType)
          (b.schema.types ++ skipColumn probeIdx p.schema.types) rows
        return [joined]

def hashJoin (build : List (RecordBatch V)) (buildKey : Str)
    (probe : List (RecordBatch V))
    (probeKey : Str) (joinType : JoinType) : Fallible (List (RecordBatch V)) :=
  match joinType with
  | .right => joinSides probe probeKey build buildKey .left
  | other => joinSides build buildKey probe probeKey other

end Batches

end Fuse.Engine
