import Fuse.Server.Execute

/-!
# Common table expressions

`resolve_ctes` and `execute_recursive_cte` of `fuse-server/src/api.rs`.  The
definitions of a `WITH` are read off the text, run one after the other, and
their results registered as connectors under the names of the definitions.
-/

namespace Fuse.Server

open Foundation Fuse.Core Engine

structure CteDef where
  name : Str
  body : Str
  deriving DecidableEq, Repr

structure CtePlan where
  recursive : Bool
  defs : List CteDef
  main : Str
  deriving DecidableEq, Repr

section Texts

variable [Unicode]

/-! ## Reading the definitions -/

def skipSpace (s : Str) : Str := s.dropWhile Str.isAsciiWhitespace

def isNameChar (c : Char) : Bool := !Str.isAsciiWhitespace c && c != '('

/-- One definition for each unit of fuel.  The text left is where the reading
stopped. -/
def scanCteDefs : Nat → Str → List CteDef → Fallible (List CteDef × Str)
  | 0, rest, defs => return (defs, rest)
  | fuel + 1, rest, defs => do
      let start := skipSpace rest
      if start.isEmpty then return (defs, start)
      let name := Str.trim (start.takeWhile isNameChar)
      let afterName := skipSpace (start.dropWhile isNameChar)
      if Str.byteLen afterName < 2 then return (defs, afterName)
      if toLowercase (← Str.sliceTo afterName 2) ≠ "as" then
        return (defs, afterName)
      match skipSpace (← Str.sliceFrom afterName 2) with
      | '(' :: inner =>
        match findMatchingParen inner with
        | none => return (defs, inner)
        | some close =>
          let body := Str.trim (← Str.sliceTo inner close)
          let defs := defs ++ [{ name, body }]
          match skipSpace (← Str.sliceFrom inner (close + 1)) with
          | ',' :: more => scanCteDefs fuel more defs
          | other => return (defs, other)
      | other => return (defs, other)

def parseCtes (query : Str) : Fallible (Option CtePlan) := do
  let lower := toLowercase query
  let trimmed := Str.trimStart lower
  if !Str.startsWith "with " trimmed then return none
  else
    let recursive := Str.startsWith "with recursive " trimmed
    let start := ((Str.find "with " lower).getD 0) + 5 +
      if recursive then 10 else 0
    -- a position past the end ends the loop before it slices
    if Str.byteLen query ≤ start then return none
    else
      let text ← Str.sliceFrom query start
      let (defs, rest) ← scanCteDefs text.length text []
      if defs.isEmpty then return none
      else return some { recursive, defs, main := Str.trim rest }

def mainQuery (plan : Option CtePlan) (query : Str)
    (refs : List TableRef) : Fallible (Str × List TableRef) :=
  match plan with
  | none => return (query, refs)
  | some plan => do
      return (plan.main, ← Fallible.orElse (parseSqlSources plan.main) refs)

def splitRecursive (inner : Str) : Fallible (Option (Str × Str)) :=
  match Str.find " union all " (toLowercase inner) with
  | none => return none
  | some pos => do
      return some (Str.trim (← Str.sliceTo inner pos),
        Str.trim (← Str.sliceFrom inner (pos + 11)))

def isRecursiveCte (recursive : Bool) (cte : CteDef) : Bool :=
  recursive && Str.contains " union all " (toLowercase cte.body)

end Texts

section Queries

variable {V : Type} [ArrowKernels V] [Unicode] [FloatOps] [SqlParser]

/-! ## Running the definitions -/

/-- Rounds of the recursive part; the working set is what the last one found. -/
def recursiveRounds (env : Env V) (name recursiveSql format : Str) :
    Nat → List (RecordBatch V) → List (RecordBatch V) →
    Exec V (Option (List (RecordBatch V)))
  | 0, all, _ => return some all
  | rounds + 1, all, working => do
      if working.all fun b => b.rows.isEmpty then return some all
      Exec.register name (.memory working)
      match ← Exec.liftFallible
          (Fallible.toOption (parseSqlSources recursiveSql)) with
      | none => return none
      | some refs =>
        if refs.length = 1 || refs.length = 2 then
          let result ← Exec.attempt <| match refs with
            | [ref] => executeSingle env recursiveSql format ref none
            | _ => executeJoin env recursiveSql refs
          match result with
          | .ok fed =>
            if fed.batches.any fun b => !b.rows.isEmpty then
              recursiveRounds env name recursiveSql format rounds
                (all ++ fed.batches) fed.batches
            else return some all
          | .error _ => return some all
        else return some all

def executeRecursiveCte (env : Env V) (name inner format : Str) :
    Exec V (Option (List (RecordBatch V))) := do
  match ← Exec.liftFallible (splitRecursive inner) with
  | none => return none
  | some (baseSql, recursiveSql) =>
    match ← Exec.liftFallible (Fallible.toOption (parseSqlSources baseSql)) with
    | some [ref] => do
        match ← Exec.attempt (executeSingle env baseSql format ref none) with
        | .ok base =>
          recursiveRounds env name recursiveSql format 100 base.batches
            base.batches
        | .error _ => return none
    | _ => return none

def executeCte (env : Env V) (format : Str) (recursive : Bool)
    (cte : CteDef) : Exec V (Option (List (RecordBatch V))) := do
  if isRecursiveCte recursive cte then
    executeRecursiveCte env cte.name cte.body format
  else
    match ← Exec.liftFallible (Fallible.toOption
        (parseSqlSources cte.body)) with
    | none => return none
    | some refs =>
      let result ← Exec.attempt <| match refs with
        | [ref] => executeSingle env cte.body format ref none
        | _ =>
          if isUnionQuery cte.body then
            executeUnion env cte.body format refs
          else executeJoin env cte.body refs
      return match result with
        | .ok fed => some fed.batches
        | .error _ => none

def registerCte (env : Env V) (format : Str) (recursive : Bool) (cte : CteDef) :
    Exec V Unit := do
  match ← executeCte env format recursive cte with
  | some batches => Exec.register cte.name (.memory batches)
  | none => return ()

def resolveCtes (env : Env V) (format query : Str) (refs : List TableRef) :
    Exec V (Str × List TableRef) := do
  let plan ← Exec.liftFallible (parseCtes query)
  match plan with
  | none => return (query, refs)
  | some p => do
      p.defs.forM (registerCte env format p.recursive)
      Exec.liftFallible (mainQuery plan query refs)

end Queries

end Fuse.Server
