import Fuse.Core.Connector

/-!
# Reading clauses off the query text

The query endpoint does not plan from the syntax tree: it scans the text for
keywords.  These are the scanners of `fuse-server/src/api.rs`.  Several find a
keyword in the lower-cased text and slice the original at the same offset,
which panics when lower-casing has moved the character boundaries.
-/

namespace Fuse.Server

open Foundation Fuse.Core

@[ext] structure TableRef where
  datasource : Str
  table : Str
  deriving DecidableEq, Repr

variable [Unicode]

def parseQualifiedName (name : Str) : Fallible TableRef :=
  let clean := (Str.splitWhitespace name).headD name
  match Str.splitOnce "." clean with
  | some (datasource, table) => .ok { datasource, table }
  | none => Fallible.fail ("expected 'datasource.table', got '" ++ clean ++ "'")

def parsePplSources (query : Str) : Fallible (List TableRef) :=
  let trimmed := Str.trim query
  let body := ((Str.stripStart "source" trimmed).or
    (Str.stripStart "search" trimmed)).bind fun s =>
      (Str.stripStart "=" (Str.trimStart s)).map Str.trimStart
  match body with
  | none => Fallible.fail "PPL query must start with 'source = '"
  | some rest =>
    let sourcePart := Str.trim (rest.takeWhile (· != '|'))
    (Str.splitBy (· == ',') sourcePart).mapM fun s =>
      parseQualifiedName (Str.trim s)

/-- A keyword starts a word after whitespace, an opening parenthesis, a comma
or at the start of the text. -/
def isWordStart (before : Str) : Bool :=
  match before.getLast? with
  | none => true
  | some c => Str.isAsciiWhitespace c || c == '(' || c == ','

def refAfter (query lower : Str) (keywordLen position : Nat) :
    Fallible (Option TableRef) := do
  if !isWordStart (← Str.sliceTo lower position) then return none
  else
    let after := Str.trimStart (← Str.sliceFrom query (position + keywordLen))
    let quotesBefore := (← Str.sliceTo query position).count '\''
    if quotesBefore % 2 == 0 then
      let token := after.takeWhile fun c =>
        !(Str.isWhitespace c || c == ',' || c == ')')
      Fallible.toOption (parseQualifiedName token)
    else return none

def addRef (refs : List TableRef) : Option TableRef → List TableRef
  | some r => if r ∈ refs then refs else refs ++ [r]
  | none => refs

def scanKeyword (query lower keyword : Str) (refs : List TableRef) :
    Fallible (List TableRef) :=
  (Str.matchIndices keyword keyword.length lower).foldlM
      (fun refs position => do
      return addRef refs (← refAfter query lower keyword.length position))
    refs

def parseSqlSources (query : Str) : Fallible (List TableRef) := do
  let lower := toLowercase query
  let refs ← scanKeyword query lower "from " []
  let refs ← scanKeyword query lower "join " refs
  if refs.isEmpty then
    Fallible.fail ("SQL query must contain a FROM clause with a qualified " ++
        "datasource.table reference")
  else return refs

def parseSources (format query : Str) : Fallible (List TableRef) :=
  if format = "ppl" then parsePplSources query else parseSqlSources query

def stripLiterals : Bool → Str → Str
  | _, [] => []
  | true, '\'' :: '\'' :: rest => stripLiterals true rest
  | true, '\'' :: rest => '\'' :: stripLiterals false rest
  | false, '\'' :: rest => '\'' :: stripLiterals true rest
  | true, _ :: rest => stripLiterals true rest
  | false, c :: rest => c :: stripLiterals false rest

def stripStringLiterals (query : Str) : Str := stripLiterals false query

def isUnionQuery (query : Str) : Bool :=
  let lower := toLowercase (stripStringLiterals query)
  Str.contains "union all" lower || Str.contains "union " lower

def isUnionDistinct (query : Str) : Bool :=
  let lower := toLowercase (stripStringLiterals query)
  Str.contains "union " lower && !Str.contains "union all" lower

def isDistinctQuery (query : Str) : Bool :=
  Str.contains "select distinct" (toLowercase (stripStringLiterals query)) ||
    isUnionDistinct query

def numberAfter (keyword query : Str) : Option Nat := do
  let stripped := toLowercase (stripStringLiterals query)
  let (_, after) ← Str.splitLast keyword stripped
  Str.parseUnsigned 64 ((Str.trim after).takeWhile Char.isDigit)

def parseLimit (query : Str) : Option Nat := numberAfter "limit " query

def parseOffset (query : Str) : Option Nat := numberAfter "offset " query

def encodeCursor (offset : Nat) : Str := "fuse_c_" ++ Str.ofNat offset

def decodeCursor (cursor : Str) : Option Nat :=
  (Str.stripStart "fuse_c_" cursor).bind (Str.parseUnsigned 64)

def cutAt (keyword clause whole : Str) : Str :=
  match Str.splitOnce keyword clause with
  | some (before, _) => before
  | none => whole

def clauseAfter (keyword query : Str) : Fallible (Option Str) :=
  let stripped := stripStringLiterals query
  match Str.rfind keyword (toLowercase stripped) with
  | none => return none
  | some pos => do
      return some (Str.trim (← Str.sliceFrom stripped (pos + keyword.length)))

def parseGroupBy (query : Str) : Fallible (List Str) := do
  match ← clauseAfter "group by " query with
  | none => return []
  | some after =>
    let clause := Str.trim (cutAt "limit"
      (cutAt "order" (cutAt "having" after after) after) after)
    return ((Str.splitBy (· == ',') clause).map Str.trim).filter (!·.isEmpty)

inductive HavingOp where
  | ge | le | ne | gt | lt | eq
  deriving DecidableEq, Repr

def HavingOp.text : HavingOp → Str
  | .ge => ">="
  | .le => "<="
  | .ne => "!="
  | .gt => ">"
  | .lt => "<"
  | .eq => "="

structure HavingCondition where
  column : Str
  op : HavingOp
  value : F64
  deriving DecidableEq, Repr

def splitAtOperator (clause : Str) : Option (HavingOp × Str × Str) :=
  [HavingOp.ge, .le, .ne, .gt, .lt, .eq].findSome? fun op =>
    (Str.splitOnce op.text clause).map fun (column, value) =>
      (op, column, value)

def parseHaving [FloatOps] (query : Str) :
    Fallible (Option HavingCondition) := do
  match ← clauseAfter " having " query with
  | none => return none
  | some after =>
    let clause := Str.trim
      (cutAt " limit" (cutAt " order" after after) after)
    return do
      let (op, column, valueText) ← splitAtOperator clause
      let first ← (Str.splitWhitespace valueText).head?
      let value ← FloatOps.parse first
      return { column := Str.trim column, op, value }

structure OrderKey where
  column : Str
  descending : Bool
  deriving DecidableEq, Repr

def parseOrderPart (part : Str) : Option OrderKey :=
  match Str.splitWhitespace part with
  | [] => none
  | first :: rest =>
    let column := Str.trimMatches
      (fun c => !Unicode.isAlphanumeric c && c != '_') first
    if column.isEmpty then none
    else some {
      column
      descending := match rest with
        | direction :: _ => toLowercase direction = "desc"
        | [] => false }

def parseOrderBy (query : Str) : Fallible (List OrderKey) := do
  match ← clauseAfter "order by " query with
  | none => return []
  | some after =>
    let clause := Str.trim
      (cutAt "offset" (cutAt "limit" after after) after)
    return (Str.splitBy (· == ',') clause).filterMap parseOrderPart

def parseOnKeys (query : Str) : Fallible (Option (Str × Str)) :=
  match Str.find " on " (toLowercase query) with
  | none => return none
  | some pos => do
      let after := Str.trim (← Str.sliceFrom query (pos + 4))
      match Str.splitOnce "=" after with
      | none => return none
      | some (left, right) =>
        let rightToken := (Str.trim right).takeWhile (!Str.isWhitespace ·)
        let leftCol := Str.trim (Str.lastPart (· == '.') (Str.trim left))
        let rightCol := Str.trim (Str.lastPart (· == '.') rightToken)
        if leftCol.isEmpty || rightCol.isEmpty then return none
        else return some (leftCol, rightCol)

structure TimeWindow where
  columnA : Str
  columnB : Str
  intervalSecs : Int64
  deriving DecidableEq, Repr

def unitSecs (unit : Str) : Int64 :=
  if unit ∈ (["m", "min", "minute", "minutes"].map String.toList) then 60
  else if unit ∈ (["h", "hour", "hours"].map String.toList) then 3600
  else if unit ∈ (["d", "day", "days"].map String.toList) then 86400
  else 1

def extractIntervalSecs (s : Str) : Option Int64 := do
  let fromDigit := s.dropWhile (!Char.isDigit ·)
  let digits := fromDigit.takeWhile Char.isDigit
  let n ← Str.parseI64 digits
  let after := Str.trimStart (fromDigit.drop digits.length)
  return n * unitSecs (toLowercase (after.takeWhile Unicode.isAlphabetic))

/-- `a BETWEEN b - …  AND b + …` in the `ON` clause. -/
def parseTimeWindow (query : Str) : Option TimeWindow := do
  let lower := toLowercase (stripStringLiterals query)
  let (_, onClause) ← Str.splitOnce " on " lower
  let (before, after) ← Str.splitOnce " between " onClause
  let columnA := Str.trim
    (Str.lastPart (fun c => Str.isWhitespace c || c == '(') (Str.trim before))
  if columnA.isEmpty then none
  else
    let intervalSecs ← extractIntervalSecs after
    let columnB ← (Str.splitBy (fun c =>
        !Unicode.isAlphanumeric c && c != '.' && c != '_') after).find?
      fun t => !t.isEmpty && '.' ∈ t && t != columnA
    return { columnA, columnB, intervalSecs }

def closingParen : Nat → List (Nat × Char) → Option Nat
  | _, [] => none
  | depth, (_, '(') :: rest => closingParen (depth + 1) rest
  | depth, (i, ')') :: rest =>
    if depth = 1 then some i else closingParen (depth - 1) rest
  | depth, _ :: rest => closingParen depth rest

def findMatchingParen (s : Str) : Option Nat :=
  closingParen 1 (Str.charIndices s)

structure InSubquery where
  outerColumn : Str
  datasource : Str
  table : Str
  innerColumn : Str
  innerQuery : Str
  fullMatch : Str
  deriving DecidableEq, Repr

def innerColumn (inner : Str) : Fallible Str :=
  match Str.find " from " (toLowercase inner) with
  | none => return "*"
  | some stop => do
      -- the slice starts after `SELECT `
      let selected := Str.trim (← Str.slice inner 7 stop)
      return Str.trim (selected.takeWhile (· != ','))

/-- The sub-select whose ` in (select ` starts at an offset. -/
def inSubqueryAt (stripped : Str) (absIn : Nat) :
    Fallible (Option InSubquery) := do
  let before := Str.trim (← Str.sliceTo stripped absIn)
  let outerColumn := Str.trim
    (Str.lastPart (fun c => Str.isWhitespace c || c == '(') before)
  let selectStart := absIn + 5
  let innerSql ← Str.sliceFrom stripped selectStart
  match findMatchingParen innerSql with
  | none => return none
  | some close =>
    let innerQuery := Str.trim (← Str.sliceTo innerSql close)
    match ← Fallible.toOption (parseSqlSources innerQuery) with
    | some (r :: _) =>
      return some {
        outerColumn
        datasource := r.datasource
        table := r.table
        innerColumn := ← innerColumn innerQuery
        innerQuery
        fullMatch := ← Str.slice stripped absIn (selectStart + close + 1) }
    | _ => return none

def extractInSubqueries (query : Str) : Fallible (List InSubquery) := do
  let stripped := stripStringLiterals query
  let found ← (Str.matchIndices " in (select " 4 (toLowercase stripped)).mapM
    (inSubqueryAt stripped)
  return found.filterMap id

end Fuse.Server
