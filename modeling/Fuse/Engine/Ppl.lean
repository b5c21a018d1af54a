import Fuse.Foundation.Text

/-!
# The piped query language

Parsing of `source = a.t, b.t | command | …` and its translation to SQL text
(`fuse-engine/src/ppl.rs`).  Of each kind of command the translation reads the
first one only, and clause order is that of SQL, not that of the pipe.
-/

namespace Fuse.Engine.Ppl

open Foundation Str

structure QualifiedTable where
  datasource : Option Str
  table : Str
  deriving DecidableEq, Repr

structure StatsAgg where
  func : Str
  field : Option Str
  aliasName : Option Str
  deriving DecidableEq, Repr

structure SortField where
  field : Str
  descending : Bool
  deriving DecidableEq, Repr

structure EvalExpr where
  aliasName : Str
  expr : Str
  deriving DecidableEq, Repr

structure RenameExpr where
  oldName : Str
  newName : Str
  deriving DecidableEq, Repr

inductive PplCommand where
  | filter (condition : Str)
  | stats (aggs : List StatsAgg) (groups : List Str)
  | sort (fields : List SortField)
  | head (n : Nat)
  | fields (keep : Bool) (names : List Str)
  | dedup (fields : List Str)
  | eval (exprs : List EvalExpr)
  | rename (renames : List RenameExpr)
  | top (n : Nat) (fields : List Str)
  | rare (fields : List Str)
  deriving DecidableEq, Repr

structure PplQuery where
  sources : List QualifiedTable
  commands : List PplCommand
  deriving DecidableEq, Repr

variable [Unicode]

def error {α : Type} (message : Str) : Fallible α :=
  Fallible.fail ("PPL parse error: " ++ message)

def commaList (s : Str) : List Str := (splitBy (· == ',') s).map trim

def stripPplPrefix (input : Str) : Fallible Str := do
  let rest ← if startsWith "search" (toLowercase input) then
      trimStart <$> sliceFrom input 6
    else pure input
  if !startsWith "source" (toLowercase rest) then
    error "Expected 'source = ...'"
  else
    let afterSource := trimStart (← sliceFrom rest 6)
    match afterSource with
    | '=' :: body => return trimStart body
    | _ => error "Expected '=' after 'source'"

def parseQualifiedTable (input : Str) : Fallible QualifiedTable :=
  if input.isEmpty then error "Empty table reference"
  else match splitOnce "." input with
    | some (ds, table) => .ok ⟨some (trim ds), trim table⟩
    | none => .ok ⟨none, input⟩

def parseSources (input : Str) : Fallible (List QualifiedTable) :=
  if input.isEmpty then error "No sources specified"
  else (commaList input).mapM parseQualifiedTable

def splitFirstWord (input : Str) : Str × Str :=
  (input.takeWhile (!isWhitespace ·),
    trimStart (input.dropWhile (!isWhitespace ·)))

def trimEndMatches (c : Char) (s : Str) : Str :=
  (s.reverse.dropWhile (· == c)).reverse

def parseStatsAgg (input : Str) : Fallible StatsAgg := do
  let (expr, aliasName) ← match find " as " (toLowercase input) with
    | some pos => do
        let expr ← sliceTo input pos
        let name ← sliceFrom input (pos + 4)
        pure (expr, some (trim name))
    | none => pure (input, none)
  let expr := trim expr
  match splitOnce "(" expr with
  | some (func, inner) =>
    let inner := trim (trimEndMatches ')' inner)
    let field := if inner.isEmpty || inner = "*" then none else some inner
    return { func := trim func, field, aliasName }
  | none => error ("Invalid aggregation expression: '" ++ expr ++ "'")

def parseStats (input : Str) : Fallible PplCommand := do
  match find " by " (toLowercase input) with
  | some pos =>
    let aggPart ← sliceTo input pos
    let byPart ← sliceFrom input (pos + 4)
    let aggs ← (commaList aggPart).mapM parseStatsAgg
    return .stats aggs (commaList byPart)
  | none => return .stats (← (commaList input).mapM parseStatsAgg) []

def parseSortField (f : Str) : SortField :=
  match f with
  | '-' :: rest => ⟨trim rest, true⟩
  | '+' :: rest => ⟨trim rest, false⟩
  | _ => ⟨f, false⟩

def parseSort (input : Str) : PplCommand :=
  .sort ((commaList input).map parseSortField)

def parseHead (input : Str) : Fallible PplCommand :=
  if input.isEmpty then .ok (.head 10)
  else match parseUnsigned 64 (trim input) with
    | some n => .ok (.head n)
    | none => error ("Invalid head count: '" ++ input ++ "'")

def parseFields (input : Str) : PplCommand :=
  match input with
  | '-' :: rest => .fields false (commaList (trim rest))
  | '+' :: rest => .fields true (commaList (trim rest))
  | _ => .fields true (commaList input)

def parseDedup (input : Str) : Fallible PplCommand :=
  let fields := commaList input
  if fields = [[]] then error "dedup requires at least one field"
  else .ok (.dedup fields)

def parseEvalExpr (part : Str) : Fallible EvalExpr :=
  match splitOnce "=" part with
  | none => error ("eval expression missing '=': '" ++ part ++ "'")
  | some (name, expr) =>
    let name := trim name
    let expr := trim expr
    if name.isEmpty || expr.isEmpty then
      error ("eval expression incomplete: '" ++ part ++ "'")
    else .ok ⟨name, expr⟩

def parseRenameExpr (part : Str) : Fallible RenameExpr := do
  match find " as " (toLowercase part) with
  | none => error ("rename missing 'AS': '" ++ part ++ "'")
  | some pos =>
    let oldName := trim (← sliceTo part pos)
    let newName := trim (← sliceFrom part (pos + 4))
    if oldName.isEmpty || newName.isEmpty then
      error ("rename incomplete: '" ++ part ++ "'")
    else return ⟨oldName, newName⟩

def nonEmptyFields (s : Str) : List Str := (commaList s).filter (!·.isEmpty)

def parseTop (input : Str) : Fallible PplCommand :=
  -- `splitn(2, …)`: the part before the first whitespace, and the rest
  let first := input.takeWhile (!isWhitespace ·)
  let (n, fieldText) := match parseUnsigned 64 first with
    | some n => (n, (input.drop first.length).tail)
    | none => (10, input)
  let fields := nonEmptyFields fieldText
  if fields.isEmpty then error "top requires at least one field"
  else .ok (.top n fields)

def parseRare (input : Str) : Fallible PplCommand :=
  let fields := nonEmptyFields input
  if fields.isEmpty then error "rare requires at least one field"
  else .ok (.rare fields)

def parseCommand (input : Str) : Fallible PplCommand :=
  let (word, rest) := splitFirstWord input
  let keyword := toLowercase word
  if keyword = "where" then .ok (.filter rest)
  else if keyword = "stats" then parseStats rest
  else if keyword = "sort" then .ok (parseSort rest)
  else if keyword = "head" then parseHead rest
  else if keyword = "fields" then .ok (parseFields rest)
  else if keyword = "dedup" then parseDedup rest
  else if keyword = "eval" then .eval <$> (commaList rest).mapM parseEvalExpr
  else if keyword = "rename" then
    .rename <$> (commaList rest).mapM parseRenameExpr
  else if keyword = "top" then parseTop rest
  else if keyword = "rare" then parseRare rest
  else error ("Unknown command: '" ++ keyword ++ "'")

def parsePpl (input : Str) : Fallible PplQuery := do
  let body ← stripPplPrefix (trim input)
  match splitBy (· == '|') body with
  | [] => error "Empty query"
  | first :: rest =>
    let sources ← parseSources (trim first)
    let commands ← rest.mapM fun segment => parseCommand (trim segment)
    return { sources, commands }

def QualifiedTable.toText (t : QualifiedTable) : Str :=
  match t.datasource with
  | some ds => ds ++ "." ++ t.table
  | none => t.table

def commaJoin (parts : List Str) : Str := joinWith ", " parts

def findFirst {α : Type} (f : PplCommand → Option α)
    (commands : List PplCommand) : Option α :=
  commands.findSome? f

def findProjection : List PplCommand → Option Str := findFirst fun
    | .fields true names => some (commaJoin names)
    | _ => none

def findWhere : List PplCommand → Option Str := findFirst fun
    | .filter condition => some condition
    | _ => none

def StatsAgg.toText (agg : StatsAgg) : Str :=
  let expr := agg.func ++ "(" ++ agg.field.getD "*" ++ ")"
  match agg.aliasName with
  | some name => expr ++ " AS " ++ name
  | none => expr

def findStats (commands : List PplCommand) : Option (Str × Option Str) :=
  findFirst (fun
    | .stats aggs groups =>
      let select := commaJoin (aggs.map StatsAgg.toText)
      if groups.isEmpty then some (select, none)
      else some (commaJoin groups ++ ", " ++ select, some (commaJoin groups))
    | _ => none) commands

def findSort : List PplCommand → Option Str := findFirst fun
    | .sort fields => some (commaJoin (fields.map fun f =>
      f.field ++ if f.descending then " DESC" else " ASC"))
    | _ => none

def findHead : List PplCommand → Option Nat := findFirst fun
    | .head n => some n
    | _ => none

def findTop : List PplCommand → Option (Nat × List Str) := findFirst fun
    | .top n fields => some (n, fields)
    | _ => none

def findRare : List PplCommand → Option (List Str) := findFirst fun
    | .rare fields => some fields
    | _ => none

def findRenames (commands : List PplCommand) : List RenameExpr :=
  (commands.filterMap fun
    | .rename renames => some renames
    | _ => none).flatten

def evalExprs (commands : List PplCommand) : List EvalExpr :=
  (commands.filterMap fun
    | .eval exprs => some exprs
    | _ => none).flatten

structure Clauses where
  select : Option Str
  groupBy : Option Str
  orderBy : Option Str
  limit : Option Nat
  deriving DecidableEq, Repr

def countSelect (fields : List Str) : Str :=
  commaJoin fields ++ ", COUNT(*) AS count"

/-- `top` and `rare` override `stats`, `sort` and `head`. -/
def clauses (commands : List PplCommand) : Clauses :=
  match findTop commands, findRare commands with
  | some (n, fields), _ =>
    { select := some (countSelect fields), groupBy := some (commaJoin fields),
      orderBy := some "count DESC", limit := some n }
  | none, some fields =>
    { select := some (countSelect fields), groupBy := some (commaJoin fields),
      orderBy := some "count ASC", limit := some 10 }
  | none, none =>
    { select := (findStats commands).map (·.1),
      groupBy := (findStats commands).bind (·.2),
      orderBy := findSort commands, limit := findHead commands }

/-- The select list when nothing is aggregated: fields, computed columns, and
a textual replacement for each rename. -/
def plainSelect (commands : List PplCommand) : Str :=
  let select := (findProjection commands).getD "*"
  let computed := (evalExprs commands).foldl
    (fun (sel : Str) e => sel ++ ", " ++ e.expr ++ " AS " ++ e.aliasName) select
  (findRenames commands).foldl
    (fun sel r => replace r.oldName (r.oldName ++ " AS " ++ r.newName) sel)
    computed

def optionalClause (keyword : Str) : Option Str → Str
  | some text => keyword ++ text
  | none => []

def pplToSql (query : PplQuery) : Fallible Str :=
  if query.sources.isEmpty then error "No sources specified"
  else
    let c := clauses query.commands
    let select := c.select.getD (plainSelect query.commands)
    let perSource := query.sources.map fun src =>
      "SELECT " ++ select ++ " FROM " ++ src.toText ++
        optionalClause " WHERE " (findWhere query.commands) ++
        optionalClause " GROUP BY " c.groupBy
    .ok (joinWith " UNION ALL " perSource ++
      optionalClause " ORDER BY " c.orderBy ++
      optionalClause " LIMIT " (c.limit.map ofNat))

end Fuse.Engine.Ppl
