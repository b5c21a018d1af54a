import Fuse.Server.Scan
import Mathlib.Data.List.Sort

/-!
# Statements

What the query endpoint makes of a text before it looks for sources:
parameters and prepared statements (`prepared.rs`), the `CONTAINS` rewriting,
and the statements that are not queries (`api.rs`).
-/

namespace Fuse.Server

open Foundation Fuse.Core

inductive ParamValue where
  | string (s : Str)
  | number (text : Str)
  | bool (b : Bool)
  | null
  | other (text : Str)
  deriving DecidableEq, Repr

namespace ParamValue

def asStr : ParamValue → Option Str
  | string s => some s
  | _ => none

def quote (s : Str) : Str := "'" ++ Str.replace "'" "''" s ++ "'"

def toSql : ParamValue → Str
  | string s => quote s
  | number text => text
  | bool b => if b then "true" else "false"
  | null => "NULL"
  | other text => quote text

end ParamValue

abbrev Params := List (Str × ParamValue)

def bindParams (query : Str) (params : Params) : Str :=
  let sorted := params.insertionSort fun a b =>
    Str.byteLen b.1 ≤ Str.byteLen a.1
  sorted.foldl (fun q (key, value) =>
    Str.replace ('$' :: key) value.toSql q) query

section Texts

variable [Unicode]

/-! ## Prepared statements -/

structure PreparedStatement where
  query : Str
  paramCount : Nat
  deriving DecidableEq, Repr

def afterWord8 (keyword query : Str) : Fallible (Option Str) := do
  let trimmed := Str.trim query
  if Str.byteLen trimmed < 8 then return none
  else if Str.eqIgnoreAsciiCase (← Str.sliceTo trimmed 8) keyword then
    return some (Str.trim (← Str.sliceFrom trimmed 8))
  else return none

def splitAtAs (text : Str) : Fallible (Option (Str × Str)) := do
  match Str.find " as " (toLowercase text) with
  | none => return none
  | some pos =>
    let name := Str.trim (← Str.sliceTo text pos)
    let body := Str.trim (← Str.sliceFrom text (pos + 4))
    if name.isEmpty || body.isEmpty then return none
    else return some (name, body)

def parsePrepare (query : Str) : Fallible (Option (Str × Str)) := do
  match ← afterWord8 "prepare " query with
  | none => return none
  | some rest => splitAtAs rest

def quotedBy (quote : Char) (s : Str) : Bool :=
  s.head? == some quote && s.getLast? == some quote

def parseParamValue [FloatOps] (s : Str) : Fallible ParamValue :=
  if quotedBy '\'' s || quotedBy '"' s then
    .string <$> Str.slice s 1 (Str.byteLen s - 1)
  else if Str.eqIgnoreAsciiCase s "null" then return .null
  else if Str.eqIgnoreAsciiCase s "true" then return .bool true
  else if Str.eqIgnoreAsciiCase s "false" then return .bool false
  else match Str.parseI64 s with
    | some n => return .number (Str.ofInt n.toInt)
    | none =>
      match FloatOps.parse s with
      | some f => return match FloatOps.jsonText f with
          | some text => .number text
          | none => .null
      | none => return .string s

def executeRest [FloatOps] (rest : Str) :
    Fallible (Option (Str × List ParamValue)) := do
  let (name, params) ← match Str.find " using " (toLowercase rest) with
    | some pos => do
        let name := Str.trim (← Str.sliceTo rest pos)
        let texts := Str.trim (← Str.sliceFrom rest (pos + 7))
        let params ← (Str.splitBy (· == ',') texts).mapM fun s =>
          parseParamValue (Str.trim s)
        pure (name, params)
    | none =>
      let name := (rest.reverse.dropWhile (· == ';')).reverse
      pure (Str.trim name, [])
  if name.isEmpty then return none else return some (name, params)

def parseExecute [FloatOps] (query : Str) :
    Fallible (Option (Str × List ParamValue)) := do
  match ← afterWord8 "execute " query with
  | none => return none
  | some rest => executeRest rest

def countParams : Str → Nat
  | [] => 0
  | c :: rest =>
    let here := if c = '$' then
        (Str.parseUnsigned 64 (rest.takeWhile Char.isDigit)).getD 0
      else 0
    max here (countParams rest)

def bindPositional (template : Str) (params : List ParamValue) : Str :=
  params.zipIdx.foldr (fun (value, i) q =>
    Str.replace ('$' :: Str.ofNat (i + 1)) value.toSql q)
    template

/-! ## `CONTAINS` -/

def rewriteContainsFrom (query lower : Str) : Nat → Nat → Str → Fallible Str
  | 0, _, result => return result
  | fuel + 1, pos, result => do
      if Str.byteLen query ≤ pos then return result
      else match Str.find " contains '" (← Str.sliceFrom lower pos) with
        | none => return result ++ (← Str.sliceFrom query pos)
        | some rel =>
          let result := result ++ (← Str.slice query pos (pos + rel))
          let termStart := pos + rel + 11
          match Str.findChar (· == '\'') (← Str.sliceFrom query termStart) with
          | some endQuote =>
            let term ← Str.slice query termStart (termStart + endQuote)
            rewriteContainsFrom query lower fuel (termStart + endQuote + 1)
              (result ++ " LIKE '%" ++ term ++ "%'")
          | none =>
            let marker ← Str.slice query (pos + rel) termStart
            rewriteContainsFrom query lower fuel termStart (result ++ marker)

/-- Every round moves the position by eleven bytes or more, so as many rounds
as the text has bytes are enough. -/
def rewriteContains (query : Str) : Fallible Str :=
  let lower := toLowercase query
  if Str.contains " contains '" lower then
    rewriteContainsFrom query lower (Str.byteLen query + 1) 0 []
  else return query

/-! ## Statements that are not queries -/

def afterKeyword (keyword query : Str) : Fallible (Option Str) := do
  let trimmed := Str.trim query
  if Str.startsWith keyword (toLowercase trimmed) then
    return some (Str.trim (← Str.sliceFrom trimmed keyword.length))
  else return none

/-- `afterKeyword` with an empty rest counted as absent. -/
def nonEmptyAfter (keyword query : Str) : Fallible (Option Str) := do
  return (← afterKeyword keyword query).filter (!·.isEmpty)

def parseNamedQuery (keyword query : Str) : Fallible (Option (Str × Str)) := do
  match ← afterKeyword keyword query with
  | none => return none
  | some rest => splitAtAs rest

def parseCreateView (query : Str) : Fallible (Option (Str × Str)) :=
  parseNamedQuery "create view " query

def parseCreateMaterializedView (query : Str) : Fallible (Option (Str × Str)) :=
  parseNamedQuery "create materialized view " query

def parseRefreshMaterializedView (query : Str) : Fallible (Option Str) :=
  nonEmptyAfter "refresh materialized view " query

/-- `uuid` is the identifier generated for a transaction without a name. -/
def parseBegin (uuid query : Str) : Fallible (Option Str) := do
  let lower := toLowercase (Str.trim query)
  if lower = "begin" || lower = "begin transaction" then return some uuid
  else match ← nonEmptyAfter "begin transaction " query with
    | some id => return some id
    | none =>
      if Str.startsWith "begin transaction" lower then return none
      else nonEmptyAfter "begin " query

def parseCommit (query : Str) : Fallible (Option Str) :=
  nonEmptyAfter "commit " query

def parseRollback (query : Str) : Fallible (Option Str) :=
  nonEmptyAfter "rollback " query

structure WriteSelect where
  destination : TableRef
  select : Str
  deriving DecidableEq, Repr

def toWriteSelect (dest select : Str) : Fallible (Option WriteSelect) := do
  match ← Fallible.toOption (parseQualifiedName dest) with
  | some destination => return some { destination, select }
  | none => return none

def parseCtas (query : Str) : Fallible (Option WriteSelect) := do
  match ← parseNamedQuery "create table " query with
  | none => return none
  | some (dest, select) => toWriteSelect dest select

/-- The select query starts at the `SELECT` found, not after it. -/
def parseInsertIntoSelect (query : Str) : Fallible (Option WriteSelect) := do
  match ← afterKeyword "insert into " query with
  | none => return none
  | some after =>
    match Str.find " select " (toLowercase after) with
    | none => return none
    | some pos =>
      let dest := Str.trim (← Str.sliceTo after pos)
      let select := Str.trim (← Str.sliceFrom after (pos + 1))
      if dest.isEmpty || select.isEmpty then return none
      else toWriteSelect dest select

inductive Command where
  | begin (id : Str)
  | commit (id : Option Str)
  | rollback (id : Option Str)
  | createTable (write : WriteSelect)
  | insertInto (write : WriteSelect)
  | createMaterializedView (name query : Str)
  | refreshMaterializedView (name : Str)
  | createView (name query : Str)
  | select
  deriving DecidableEq, Repr

def isWord (word lower : Str) : Bool :=
  lower = word || Str.startsWith (word ++ " ") lower

/-- The statements from `CREATE TABLE` on, in the order they are tried. -/
def classifyDefinition (query : Str) : Fallible Command := do
  match ← parseCtas query with
  | some write => return .createTable write
  | none =>
  match ← parseInsertIntoSelect query with
  | some write => return .insertInto write
  | none =>
  match ← parseCreateMaterializedView query with
  | some (name, body) => return .createMaterializedView name body
  | none =>
  match ← parseRefreshMaterializedView query with
  | some name => return .refreshMaterializedView name
  | none =>
  match ← parseCreateView query with
  | some (name, body) => return .createView name body
  | none => return .select

def classify (uuid query : Str) : Fallible Command := do
  let lower := toLowercase (Str.trim query)
  let begun ← if isWord "begin" lower then parseBegin uuid query
    else pure none
  match begun with
  | some id => return .begin id
  | none =>
    if isWord "commit" lower then return .commit (← parseCommit query)
    else if isWord "rollback" lower then
      return .rollback (← parseRollback query)
    else classifyDefinition query

end Texts

end Fuse.Server
