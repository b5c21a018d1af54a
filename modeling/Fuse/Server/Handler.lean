import Fuse.Server.Ctes
import Fuse.Server.State

/-!
# The query endpoint

`query_handler` of `fuse-server/src/api.rs`, in its own order: parameters and
prepared statements, the result cache, the statements that are not queries,
and the pipeline of a query.  A panic ends the request without a reply; what
was done to the state before it stays.
-/

namespace Fuse.Server

open Foundation Fuse.Core Engine

section Texts

variable [Unicode] [FloatOps]

inductive TextOutcome where
  | prepare (name : Str) (statement : PreparedStatement)
  | refused (reply : Reply)
  | query (text : Str)
  deriving DecidableEq, Repr

def executeText (prepared : List (Str × PreparedStatement)) (name : Str)
    (params : List ParamValue) : Fallible TextOutcome :=
  match prepared.lookup name with
  | none =>
    return .refused
      (errorJson 404 ("prepared statement '" ++ name ++ "' not found"))
  | some statement =>
    if !params.isEmpty && params.length != statement.paramCount then
      return .refused
        (errorJson 400 ("expected " ++ Str.ofNat statement.paramCount ++
          " parameters, got " ++ Str.ofNat params.length))
    else do
      return .query (← rewriteContains (bindPositional statement.query params))

def resolveText (prepared : List (Str × PreparedStatement))
    (body : QueryRequest) : Fallible TextOutcome := do
  let bound := if body.params.isEmpty then body.query
    else bindParams body.query body.params
  match ← parsePrepare bound with
  | some (name, query) =>
    return .prepare name { query, paramCount := countParams query }
  | none =>
    match ← parseExecute bound with
    | some (name, params) => executeText prepared name params
    | none => return .query (← rewriteContains bound)

def cacheKey (format text : Str) : Str := format ++ ":" ++ text

end Texts

section Queries

variable {V : Type} [ArrowKernels V] [Unicode] [FloatOps] [SqlParser]

def callConnector (env : Env V) (ds : Str) (connector : Connector V)
    (sq : SubQuery) :
    Exec V (Except ConnectorError (List (RecordBatch V))) := do
  let number ← Exec.nextCall
  Traced.emit (.execute ds sq)
  return answer env number ds connector sq

def firstColumn (batches : List (RecordBatch V)) : Fallible (List Str) :=
  if batches.any fun b => b.schema.isEmpty then
    Fallible.panic .indexOutOfBounds
  else .ok (batches.flatMap fun b => b.rows.filterMap fun row =>
    row.head?.join.map ArrowKernels.display)

def inList (values : List Str) : Str :=
  " IN (" ++ Str.joinWith ", " (values.map ParamValue.quote) ++ ")"

def substitute (isq : InSubquery) (values : List Str) (query : Str) : Str :=
  if values.isEmpty then query
  else Str.replace isq.fullMatch (inList values) query

def inSubqueryValues (env : Env V) (format : Str) (isq : InSubquery) :
    Exec V (List Str) := do
  match (← Exec.registry).get isq.datasource with
  | none => return []
  | some connector =>
    let sq ← Exec.liftFallible (Fallible.orElse
      (buildSubQuery isq.innerQuery format isq.table)
      { table := isq.table, projections := [isq.innerColumn] })
    match ← callConnector env isq.datasource connector sq with
    | .ok batches => Exec.liftFallible (firstColumn batches)
    | .error _ => return []

def resolveInSubqueries (env : Env V) (format query : Str)
    (refs : List TableRef) : Exec V (Str × List TableRef) := do
  let subs ← Exec.liftFallible (extractInSubqueries query)
  let resolved ← subs.foldlM (fun q isq => do
    return substitute isq (← inSubqueryValues env format isq) q) query
  if subs.isEmpty then return (query, refs)
  else
    let newRefs ← Exec.liftFallible
      (Fallible.orElse (parseSources format resolved) refs)
    return (resolved, newRefs)

def forbiddenText (tenant ds : Str) : Str :=
  "tenant '" ++ tenant ++ "' does not have access to datasource '" ++ ds ++ "'"

def refuseUnknown (registry : Registry V) (refs : List TableRef) :
    Option Reply :=
  (refs.find? fun r => (registry.get r.datasource).isNone).map fun r =>
    errorJson 404 (notFoundText r.datasource)

def refuseTenant (tenants : TenantRegistry) (tenant : Option Str)
    (refs : List TableRef) : Option Reply :=
  match tenant with
  | none => none
  | some id =>
    if tenants.isEnabled then
      let allowed := tenants.filterDatasources id (refs.map (·.datasource))
      (refs.find? fun r => r.datasource ∉ allowed).map fun r =>
        errorJson 403 (forbiddenText id r.datasource)
    else none

structure Execution (V : Type) where
  query : Str
  refs : List TableRef
  fed : FederatedResult V

def failureReply (message : Str) : Reply :=
  if Str.contains "timed out" message || Str.contains "cancelled" message then
    errorJson 504 message
  else errorJson (connectorErrorStatus message) message

def runSettled (r : Request V) (query : Str) (refs : List TableRef) :
    Exec V (Except Reply (Execution V)) := do
  let (query, refs) ← resolveInSubqueries r.env r.format query refs
  let result ← Exec.attempt
    (executeRefs r.env query r.format refs r.range)
  match r.env.interrupted, result with
  | some message, _ => return .error (failureReply message)
  | none, .error message => return .error (failureReply message)
  | none, .ok fed => return .ok { query, refs, fed }

def runChecked (cfg : Config) (r : Request V) (query : Str)
    (refs : List TableRef) : Exec V (Except Reply (Execution V)) := do
  match (refuseUnknown (← Exec.registry) refs).or
      (refuseTenant cfg.tenants r.tenantId refs) with
  | some reply => return .error reply
  | none => runSettled r query refs

def sourcesOf (format text : Str) (planned : Option (List TableRef)) :
    Fallible (Except Str (List TableRef)) :=
  match planned with
  | some refs => return .ok refs
  | none => Fallible.catchError (parseSources format text)

def runSelect (cfg : Config) (r : Request V) (text : Str)
    (planned : Option (List TableRef)) :
    Exec V (Except Reply (Execution V)) := do
  match ← Exec.liftFallible (sourcesOf r.format text planned) with
  | .error message => return .error (errorJson 400 message)
  | .ok [] =>
    return .error (errorJson 400 "no datasource.table references found")
  | .ok refs =>
    let (query, refs) ← resolveCtes r.env r.format text refs
    runChecked cfg r query refs

def tooLargeText (bytes limit : Nat) : Str :=
  "result size " ++ Str.ofNat bytes ++
    " bytes exceeds max_result_bytes limit of " ++ Str.ofNat limit ++ " bytes"

def refuseSize (cfg : Config) (r : Request V) (rows bytes : Nat) :
    Option Reply :=
  if 0 < cfg.maxResultBytes && cfg.maxResultBytes < bytes then
    some (.error 413 (tooLargeText bytes cfg.maxResultBytes))
  else
    (r.tenantId.bind cfg.tenants.get).bind fun config =>
      (checkLimits config rows bytes r.env.elapsedMs).map (errorJson 429)

def pageOf (cfg : Config) (r : Request V) (clauses : PlanClauses)
    (ex : Execution V) : Fallible (Page V) := do
  let shaped ← shapeResult r.env ex.query clauses ex.fed
  finishPage cfg.columnRbac r.userContext clauses r.body.page ex.fed ex.refs
    shaped

def responseOf (r : Request V) (ex : Execution V) (page : Page V) :
    QueryResponse :=
  let (columns, rows) := batchesToJson page.batches
  { columns
    rows
    totalRows := rows.length
    format := r.body.format
    traceId := r.env.traceId
    datasourcesQueried :=
      if 1 < ex.fed.datasources.length then some ex.fed.datasources else none
    profiled := r.body.analyze
    partialErrors := ex.fed.partialErrors
    nextCursor := page.nextCursor }

def QueryRequest.exports (body : QueryRequest) : Bool :=
  body.resultFormat = "ndjson" || body.resultFormat = "csv"

def respond (cfg : Config) (r : Request V) (clauses : PlanClauses)
    (ex : Execution V) : Fallible Reply := do
  let page ← pageOf cfg r clauses ex
  let (columns, rows) := batchesToJson page.batches
  match refuseSize cfg r rows.length (r.env.resultBytes page.batches) with
  | some reply => return reply
  | none =>
    if r.body.exports then
      return .exported r.body.resultFormat columns rows
    else return .result (responseOf r ex page)

def planOf (ex : Execution V) (clauses : PlanClauses) : CachedPlan where
  sources := ex.refs
  isUnion := isUnionQuery ex.query
  isJoin := 1 < ex.refs.length && !isUnionQuery ex.query
  clauses

def settleClauses (r : Request V) (key : Str) (cached : Option CachedPlan)
    (ex : Execution V) : Handler V PlanClauses := do
  match cached with
  | some plan => return plan.clauses
  | none =>
    let clauses ← Handler.liftFallible (parseClauses ex.query)
    Traced.modifyState fun s => { s with
      planCache := s.planCache.insert r.env.now (normalizeQuery key)
        (planOf ex clauses) }
    return clauses

def storeResult (r : Request V) (key : Str) (reply : Reply) : Handler V Unit :=
  match reply with
  | .result response => Traced.modifyState fun s => { s with
      resultCache := s.resultCache.insert r.env.now key response }
  | _ => return ()

def finishSelect (cfg : Config) (r : Request V) (key : Str)
    (cached : Option CachedPlan) :
    Except Reply (Execution V) → Handler V Reply
  | .error reply => return reply
  | .ok ex => do
      let clauses ← settleClauses r key cached ex
      let reply ← Handler.liftFallible (respond cfg r clauses ex)
      storeResult r key reply
      return reply

/-- A query; `planCache` is the plan cache before it. -/
def handleSelect (cfg : Config) (r : Request V)
    (planCache : TtlCache Str CachedPlan) (text : Str) :
    Handler V Reply := do
  let key := cacheKey r.format text
  let (cached, planCache) := planCache.get r.env.now (normalizeQuery key)
  Traced.modifyState fun s => { s with planCache }
  let result ← Handler.runExec
    (runSelect cfg r text (cached.map (·.sources)))
  finishSelect cfg r key cached result

def firstSource (query : Str) : Fallible (Option TableRef) := do
  match ← Fallible.toOption (parseSqlSources query) with
  | some (ref :: _) => return some ref
  | _ => return none

def writeTo (env : Env V) (dest : TableRef) (batches : List (RecordBatch V)) :
    Exec V (Option (Except ConnectorError Nat)) := do
  match (← Exec.registry).get dest.datasource with
  | none => return none
  | some connector =>
    let number ← Exec.nextCall
    Traced.emit (.write dest.datasource dest.table)
    return some <| match connector with
      | .external => env.write number dest.datasource dest.table batches
      | .memory _ => .error (.queryFailed
          ("connector '" ++ dest.datasource ++ "' does not support writes"))

def writeAnswer (env : Env V) (w : WriteSelect) (status : Nat) (message : Str)
    (answered : Except ConnectorError (List (RecordBatch V))) :
    Exec V Reply := do
  match answered with
  | .error e => return errorJson (connectorErrorStatus e.toText) e.toText
  | .ok batches =>
    match ← writeTo env w.destination batches with
    | none =>
      return errorJson 404 ("destination datasource '" ++
        w.destination.datasource ++ "' not found")
    | some (.error e) =>
      return errorJson (connectorErrorStatus e.toText) e.toText
    | some (.ok rows) =>
      return .written status message rows (totalRows batches)

/--
`CREATE TABLE … AS` and `INSERT INTO … SELECT`: run the query on its first
source and write what it gives.
-/
def writeSelect (env : Env V) (w : WriteSelect) (status : Nat) (message : Str) :
    Exec V Reply := do
  match ← Exec.liftFallible (firstSource w.select) with
  | none => return errorJson 400 "failed to parse source query"
  | some src =>
    match (← Exec.registry).get src.datasource with
    | none =>
      return errorJson 404 ("source datasource '" ++ src.datasource ++
        "' not found")
    | some connector =>
      match ← Exec.liftFallible
          (Fallible.catchError (buildSubQuery w.select "sql" src.table)) with
      | .error e => return errorJson 400 e
      | .ok sq =>
        writeAnswer env w status message
          (← callConnector env src.datasource connector sq)

def tableName (ref : TableRef) : Str :=
  "'" ++ ref.datasource ++ "." ++ ref.table ++ "'"

def createTable (env : Env V) (w : WriteSelect) : Exec V Reply :=
  writeSelect env w 201 ("table " ++ tableName w.destination ++ " created")

def insertInto (env : Env V) (w : WriteSelect) : Exec V Reply :=
  writeSelect env w 200 ("inserted into " ++ tableName w.destination)

def viewBatches (env : Env V) (query : Str) :
    Exec V (Except Str (List (RecordBatch V))) := do
  match ← Exec.liftFallible (firstSource query) with
  | none => return .error "failed to parse view query sources"
  | some src =>
    match (← Exec.registry).get src.datasource with
    | none => return .error (notFoundText src.datasource)
    | some connector =>
      match ← Exec.liftFallible
          (Fallible.catchError (buildSubQuery query "sql" src.table)) with
      | .error e => return .error e
      | .ok sq =>
        return (← callConnector env src.datasource connector sq).mapError
          ConnectorError.toText

def View.refresh (view : View V) (result : Except Str (List (RecordBatch V))) :
    View V :=
  match result with
  | .ok batches => { view with batches, error := none }
  | .error e => { view with error := some e }

def setView (name : Str) (view : View V) : Handler V Unit :=
  Traced.modifyState fun s => { s with views := bindKey name view s.views }

def createMaterializedView (env : Env V) (name query : Str) :
    Handler V Reply := do
  setView name { query }
  let result ← Handler.runExec (viewBatches env query)
  setView name (View.refresh { query } result)
  return .viewCreated ("materialized view '" ++ name ++ "' created") name query
      (match result with
      | .ok batches => totalRows batches
      | .error _ => 0)
    (match result with
      | .ok _ => none
      | .error e => some e)

/-- `views` are the views before the statement. -/
def refreshMaterializedView (env : Env V) (views : List (Str × View V))
    (name : Str) : Handler V Reply := do
  match views.lookup name with
  | none =>
    return errorJson 404 ("materialized view '" ++ name ++ "' not found")
  | some view =>
    let result ← Handler.runExec (viewBatches env view.query)
    setView name (view.refresh result)
    match result with
    | .ok batches => return .refreshed name (totalRows batches)
    | .error e => return errorJson 500 e

def createView (name query : Str) : Handler V Reply := do
  setView name { query }
  return .viewDefined ("view '" ++ name ++ "' created") name query

def maxActiveTransactions : Nat := 100

def beginTransaction (transactions : List (Str × List (PendingWrite V)))
    (id : Str) : Handler V Reply := do
  if (transactions.lookup id).isSome || maxActiveTransactions ≤
    transactions.length then
    return errorJson 409 ("transaction '" ++ id ++ "' already exists")
  else
    Traced.modifyState fun s =>
      { s with transactions := bindKey id [] s.transactions }
    return .transactionActive id

def transactionId (r : Request V) (id : Option Str) : Option Str :=
  id.or ((r.body.params.lookup "transaction_id".toList).bind ParamValue.asStr)

def removeTransaction (id : Str) : Handler V Unit := Traced.modifyState fun s =>
    { s with transactions := s.transactions.filter (·.1 ≠ id) }

def commitWrite (env : Env V) (w : PendingWrite V) : Exec V CommitOutcome := do
  match ← writeTo env ⟨w.datasource, w.table⟩ w.batches with
  | none => return .missing w.datasource
  | some (.ok rows) => return .written w.datasource w.table rows
  | some (.error e) => return .failed w.datasource w.table e.toText

def commitTransaction (r : Request V)
    (transactions : List (Str × List (PendingWrite V)))
    (id : Option Str) : Handler V Reply := do
  match transactionId r id with
  | none => return errorJson 400 "COMMIT requires transaction_id"
  | some id =>
    match transactions.lookup id with
    | none => return errorJson 404 ("transaction '" ++ id ++ "' not found")
    | some writes =>
      removeTransaction id
      let outcomes ← Handler.runExec (writes.mapM (commitWrite r.env))
      return .committed id outcomes

def rollbackTransaction (r : Request V)
    (transactions : List (Str × List (PendingWrite V)))
    (id : Option Str) : Handler V Reply := do
  match transactionId r id with
  | none => return errorJson 400 "ROLLBACK requires transaction_id"
  | some id =>
    if (transactions.lookup id).isSome then
      removeTransaction id
      return .rolledBack id
    else return errorJson 404 ("transaction '" ++ id ++ "' not found")

def perform (cfg : Config) (r : Request V) (s : AppState V) (text : Str) :
    Command → Handler V Reply
  | .begin id => beginTransaction s.transactions id
  | .commit id => commitTransaction r s.transactions id
  | .rollback id => rollbackTransaction r s.transactions id
  | .createTable w => Handler.runExec (createTable r.env w)
  | .insertInto w => Handler.runExec (insertInto r.env w)
  | .createMaterializedView name query =>
    createMaterializedView r.env name query
  | .refreshMaterializedView name =>
    refreshMaterializedView r.env s.views name
  | .createView name query => createView name query
  | .select => handleSelect cfg r s.planCache text

def answerText (cfg : Config) (r : Request V) (s : AppState V) (text : Str) :
    Handler V Reply := do
  let (hit, resultCache) :=
    s.resultCache.get r.env.now (cacheKey r.format text)
  Traced.modifyState fun s => { s with resultCache }
  match hit with
  | some response =>
    return .result { response with traceId := r.env.traceId }
  | none =>
    let command ← Handler.liftFallible (classify r.env.uuid text)
    perform cfg r s text command

/-- What is done with a settled text; `s` is the state before it. -/
def answerOutcome (cfg : Config) (r : Request V) (s : AppState V) :
    TextOutcome → Handler V Reply
  | .prepare name statement => do
      Traced.modifyState fun s =>
        { s with prepared := bindKey name statement s.prepared }
      return .prepared name statement
  | .refused reply => return reply
  | .query text => answerText cfg r s text

def queryHandler (cfg : Config) (r : Request V) : Handler V Reply := do
  let s ← Traced.getState
  let outcome ← Handler.liftFallible (resolveText s.prepared r.body)
  answerOutcome cfg r s outcome

def AppState.start (s : AppState V) : AppState V :=
  { s with exec := { s.exec with calls := 0 } }

def serve (cfg : Config) (r : Request V) (s : AppState V) :
    Outcome Failure (AppState V) Call Reply :=
  queryHandler cfg r s.start

def stepState (cfg : Config) (r : Request V) (s : AppState V) : AppState V :=
  (serve cfg r s).state

end Queries

end Fuse.Server
