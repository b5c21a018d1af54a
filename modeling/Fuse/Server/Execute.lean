import Fuse.Engine.Join
import Fuse.Engine.Merger
import Fuse.Engine.Ppl
import Fuse.Engine.SqlToSubquery
import Fuse.Foundation.Traced
import Fuse.Server.Scan

/-!
# Running a query on its sources

`execute_single`, `execute_union` and `execute_join` of
`fuse-server/src/api.rs`.  What is outside the server (connectors, the fault
injection, the clock) is an `Env`; its answers may differ from one connector
call of a request to the next, so they are indexed by the number of the call.
A call leaves a `Call` in the trace.
-/

namespace Fuse.Server

open Foundation Fuse.Core Engine

inductive Connector (V : Type) where
  | external
  | memory (batches : List (RecordBatch V))

abbrev Registry (V : Type) := List (Str × Connector V)

namespace Registry

variable {V : Type}

def get (registry : Registry V) (id : Str) : Option (Connector V) :=
  registry.lookup id

def register (registry : Registry V) (id : Str) (connector : Connector V) :
    Registry V :=
  if (registry.get id).isSome then registry else registry ++ [(id, connector)]

end Registry

structure Env (V : Type) where
  now : Nat
  elapsedMs : Nat
  uuid : Str
  traceId : Str
  interrupted : Option Str
  /-- `chaos::maybe_fail`. -/
  chaos : Nat → Str → Option Str
  execute : Nat → Str → SubQuery → Except ConnectorError (List (RecordBatch V))
  late : Nat → Str → SubQuery → Bool
  write : Nat → Str → Str → List (RecordBatch V) → Except ConnectorError Nat
  resultBytes : List (RecordBatch V) → Nat
  keyOrder : List (List Str) → List (List Str)
  keyOrder_perm : ∀ keys, (keyOrder keys).Perm keys

def Env.quiet (V : Type) : Env V where
  now := 0
  elapsedMs := 0
  uuid := []
  traceId := []
  interrupted := none
  chaos _ _ := none
  execute _ _ _ := .ok []
  late _ _ _ := false
  write _ _ _ _ := .ok 0
  resultBytes _ := 0
  keyOrder := id
  keyOrder_perm _ := List.Perm.refl _

inductive Call where
  | execute (datasource : Str) (subQuery : SubQuery)
  | write (datasource table : Str)
  deriving DecidableEq, Repr

def Call.datasource : Call → Str
  | execute ds _ => ds
  | write ds _ => ds

structure ExecState (V : Type) where
  registry : Registry V
  calls : Nat := 0

abbrev Exec (V : Type) := Traced Failure (ExecState V) Call

namespace Exec

variable {V α : Type}

def liftFallible (x : Fallible α) : Exec V α := Traced.lift x

def fail (message : Str) : Exec V α := liftFallible (Fallible.fail message)

def registry : Exec V (Registry V) := do
  return (← Traced.getState).registry

theorem registry_bind (f : Registry V → Exec V α) (s : ExecState V) :
    (registry >>= f) s = f s.registry s :=
  rfl

def register (id : Str) (connector : Connector V) : Exec V Unit :=
  Traced.modifyState fun s =>
    { s with registry := s.registry.register id connector }

def nextCall : Exec V Nat := do
  let s ← Traced.getState
  Traced.modifyState fun s => { s with calls := s.calls + 1 }
  return s.calls

def attempt (m : Exec V α) : Exec V (Except Str α) := fun s =>
  let o := m s
  ⟨Fallible.catchError o.result, o.state, o.trace⟩

end Exec

def answer {V : Type} (env : Env V) (number : Nat) (ds : Str)
    (connector : Connector V)
    (sq : SubQuery) : Except ConnectorError (List (RecordBatch V)) :=
  match connector with
  | .external => env.execute number ds sq
  | .memory batches => .ok batches

def timedAnswer {V : Type} (env : Env V) (number : Nat) (ds : Str)
    (connector : Connector V)
    (sq : SubQuery) : Option (Except ConnectorError (List (RecordBatch V))) :=
  match connector with
  | .external =>
    if env.late number ds sq then none else some (env.execute number ds sq)
  | .memory batches => some (.ok batches)

def timedOutText (ds : Str) : Str := "connector '" ++ ds ++ "' timed out"

def notFoundText (ds : Str) : Str := "datasource '" ++ ds ++ "' not found"

structure PartialError where
  datasource : Str
  error : Str
  deriving DecidableEq, Repr

structure FederatedResult (V : Type) where
  batches : List (RecordBatch V)
  datasources : List Str
  partialErrors : List PartialError

section Batches

variable {V : Type} [ArrowKernels V]

def datasourceField : Field :=
  { name := "_datasource", dataType := .utf8, nullable := false }

def addDatasourceColumn (batches : List (RecordBatch V)) (ds : Str) :
    List (RecordBatch V) :=
  batches.filterMap fun batch =>
    Except.toOption <| RecordBatch.tryNew (batch.schema ++ [datasourceField])
      (batch.schema.types ++ [.utf8])
        (batch.rows.map (· ++ [some (ArrowKernels.ofText [] ds)]))

def totalRows (batches : List (RecordBatch V)) : Nat :=
  (batches.map RecordBatch.numRows).sum

end Batches

section Queries

variable {V : Type} [ArrowKernels V] [Unicode] [FloatOps] [SqlParser]

def labelError {α : Type} (label : Str) : Fallible α → Fallible α
  | .error (.error e) => Fallible.fail (label ++ e)
  | other => other

def sqlText (query format : Str) : Fallible Str :=
  if format = "ppl" then do
    let parsed ← labelError "PPL parse error: " (Ppl.parsePpl query)
    labelError "PPL translation error: " (Ppl.pplToSql parsed)
  else return query

def buildSubQuery (query format table : Str) : Fallible SubQuery := do
  let sql ← sqlText query format
  match sqlToSubquery sql with
  | .ok sq => return { sq with table }
  | .error _ => return { table }

def executeSingle (env : Env V) (query format : Str) (ref : TableRef)
    (range : Option RangeParams) : Exec V (FederatedResult V) := do
  match (← Exec.registry).get ref.datasource with
  | none => Exec.fail (notFoundText ref.datasource)
  | some connector =>
    let built ← Exec.liftFallible (buildSubQuery query format ref.table)
    let sq := { built with passthrough := range.or built.passthrough }
    let number ← Exec.nextCall
    match env.chaos number ref.datasource with
    | some err => Exec.fail err
    | none =>
      Traced.emit (.execute ref.datasource sq)
      match answer env number ref.datasource connector sq with
      | .error e => Exec.fail e.toText
      | .ok batches =>
        return {
          batches
          datasources := [ref.datasource]
          partialErrors := [] }

/-- The rows a source of a fan-out is asked for when the query sets no limit. -/
def fanoutLimit : Nat := 10000

structure UnionTask (V : Type) where
  datasource : Str
  connector : Connector V
  subQuery : SubQuery

def unionSubQueries (base : SubQuery) (refs : List TableRef) : List SubQuery :=
  pushDownToSources base (refs.map fun r =>
    { table := r.table, limit := some fanoutLimit })

def unionTasks (registry : Registry V) (base : SubQuery)
    (refs : List TableRef) : List (UnionTask V) :=
  (refs.zip (unionSubQueries base refs)).filterMap fun (r, subQuery) =>
    (registry.get r.datasource).map fun connector =>
      { datasource := r.datasource, connector, subQuery }

abbrev TaskResult (V : Type) :=
  Str × Except ConnectorError (List (RecordBatch V))

def taskResult (env : Env V) (number : Nat) (task : UnionTask V) :
    TaskResult V := (task.datasource,
    match env.chaos number task.datasource with
    | some err => .error (.queryFailed err)
    | none =>
      (timedAnswer env number task.datasource task.connector task.subQuery).getD
        (.error (.queryFailed (timedOutText task.datasource))))

def runTask (env : Env V) (task : UnionTask V) : Exec V (TaskResult V) := do
  let number ← Exec.nextCall
  if (env.chaos number task.datasource).isNone then
    Traced.emit (.execute task.datasource task.subQuery)
  return taskResult env number task

def taskBatches (r : TaskResult V) : Option (List (RecordBatch V)) :=
  match r.2 with
  | .ok batches => some (addDatasourceColumn batches r.1)
  | .error _ => none

def taskError (r : TaskResult V) : Option PartialError :=
  match r.2 with
  | .ok _ => none
  | .error e => some { datasource := r.1, error := e.toText }

def collectUnion (results : List (TaskResult V)) :
    Fallible (FederatedResult V) :=
  let batchSets := results.filterMap taskBatches
  let partialErrors := results.filterMap taskError
  if batchSets.isEmpty && !partialErrors.isEmpty then
    Fallible.fail (Str.joinWith "; " (partialErrors.map fun e =>
      (e.datasource ++ ": " ++ e.error : Str)))
  else do
    return {
      batches := ← unionBatches batchSets
      datasources := results.map (·.1)
      partialErrors }

def unionBase (query format : Str) (refs : List TableRef) : Fallible SubQuery :=
  match refs with
  | [] => Fallible.panic .indexOutOfBounds
  | first :: _ =>
    Fallible.orElse (buildSubQuery query format first.table) { table := [] }

def executeUnion (env : Env V) (query format : Str)
    (refs : List TableRef) : Exec V (FederatedResult V) := do
  let base ← Exec.liftFallible (unionBase query format refs)
  let tasks := unionTasks (← Exec.registry) base refs
  let results ← tasks.mapM (runTask env)
  Exec.liftFallible (collectUnion results)

def findJoinKey (a b : Schema) : Option (Str × Str) :=
  match a.names.find? (· ∈ b.names) with
  | some name => some (name, name)
  | none => a.names.findSome? fun fa =>
    (b.names.find? fun fb => toLowercase fb = toLowercase fa).map fun fb =>
    (fa, fb)

/-- Whether two times are at most the interval apart; texts that are not
numbers pass. -/
def withinWindow (interval : Int64) (a b : Str) : Bool :=
  match Str.parseI64 a, Str.parseI64 b with
  | some x, some y => (x - y).abs ≤ interval
  | _, _ =>
    match FloatOps.parse a, FloatOps.parse b with
    | some x, some y =>
      FloatOps.le (FloatOps.sub x y).abs (FloatOps.ofInt64 interval)
    | _, _ => true

def filterTimeWindow (window : TimeWindow)
    (batches : List (RecordBatch V)) : List (RecordBatch V) :=
  batches.filterMap fun batch => do
    let i ← batch.schema.indexOf (Str.lastPart (· == '.') window.columnA)
    let j ← batch.schema.indexOf (Str.lastPart (· == '.') window.columnB)
    return batch.filterRows fun row =>
      match row[i]?.join, row[j]?.join with
      | some a, some b => withinWindow window.intervalSecs
          (ArrowKernels.display a) (ArrowKernels.display b)
      | _, _ => false

structure JoinSide (V : Type) where
  datasource : Str
  batches : List (RecordBatch V)

def joinTagged (a b : JoinSide V) (keyA keyB : Str) :
    Fallible (List (RecordBatch V)) :=
  let taggedA := addDatasourceColumn a.batches a.datasource
  let taggedB := addDatasourceColumn b.batches b.datasource
  if totalRows b.batches ≤ totalRows a.batches then
    hashJoin taggedA keyA taggedB keyB .inner
  else hashJoin taggedB keyB taggedA keyA .inner

def joinAnswers (query : Str) (a b : JoinSide V) :
    Fallible (List (RecordBatch V)) :=
  match a.batches, b.batches with
  | [], _ => return []
  | _, [] => return []
  | firstA :: _, firstB :: _ => do
      let keys := (← parseOnKeys query).or
        (findJoinKey firstA.schema firstB.schema)
      match keys with
      | none => Fallible.fail "no common column found for JOIN key"
      | some (keyA, keyB) =>
        let joined ← joinTagged a b keyA keyB
        return match parseTimeWindow query with
          | some window => filterTimeWindow window joined
          | none => joined

def joinReplies (dsA dsB : Str)
    (replyA replyB : Option (Except ConnectorError (List (RecordBatch V)))) :
    Fallible (JoinSide V × JoinSide V) :=
  match replyA, replyB with
  | none, _ => Fallible.fail (timedOutText dsA)
  | _, none => Fallible.fail (timedOutText dsB)
  | some (.error e), _ => Fallible.fail e.toText
  | _, some (.error e) => Fallible.fail e.toText
  | some (.ok a), some (.ok b) => .ok (⟨dsA, a⟩, ⟨dsB, b⟩)

def executeJoin (env : Env V) (query : Str) (refs : List TableRef) :
    Exec V (FederatedResult V) := do
  match refs with
  | [a, b] =>
    let registry ← Exec.registry
    match registry.get a.datasource, registry.get b.datasource with
    | none, _ => Exec.fail (notFoundText a.datasource)
    | _, none => Exec.fail (notFoundText b.datasource)
    | some connA, some connB =>
      let sqA : SubQuery := { table := a.table, limit := some fanoutLimit }
      let sqB : SubQuery := { table := b.table, limit := some fanoutLimit }
      let numberA ← Exec.nextCall
      let numberB ← Exec.nextCall
      match (env.chaos numberA a.datasource).or
          (env.chaos numberB b.datasource) with
      | some err => Exec.fail err
      | none =>
        Traced.emit (.execute a.datasource sqA)
        Traced.emit (.execute b.datasource sqB)
        let (sideA, sideB) ← Exec.liftFallible <|
          joinReplies a.datasource b.datasource
            (timedAnswer env numberA a.datasource connA sqA)
            (timedAnswer env numberB b.datasource connB sqB)
        return {
          batches := ← Exec.liftFallible (joinAnswers query sideA sideB)
          datasources := [a.datasource, b.datasource]
          partialErrors := [] }
  | _ =>
    Exec.fail ("JOIN requires exactly 2 datasources, got " ++
      Str.ofNat refs.length)

def executeRefs (env : Env V) (query format : Str) (refs : List TableRef)
    (range : Option RangeParams) : Exec V (FederatedResult V) :=
  match refs with
  | [ref] => executeSingle env query format ref range
  | _ =>
    if format = "ppl" || isUnionQuery query then
      executeUnion env query format refs
    else executeJoin env query refs

def joinSubQuery (ref : TableRef) : SubQuery :=
  { table := ref.table, limit := some fanoutLimit }

omit [ArrowKernels V] [Unicode] [FloatOps] [SqlParser] in
theorem joinReplies_ok {dsA dsB : Str}
    {replyA replyB : Option (Except ConnectorError (List (RecordBatch V)))}
    {sides : JoinSide V × JoinSide V}
    (h : joinReplies dsA dsB replyA replyB = .ok sides) :
    ∃ a b, replyA = some (.ok a) ∧ replyB = some (.ok b) ∧
    sides = (⟨dsA, a⟩, ⟨dsB, b⟩) := by
  unfold joinReplies at h
  split at h
  · cases h
  · cases h
  · cases h
  · cases h
  · rename_i a b
    cases h
    exact ⟨a, b, rfl, rfl, rfl⟩

omit [SqlParser] in
theorem executeJoin_result (env : Env V) (query : Str) {a b : TableRef}
    {connA connB : Connector V}
    (s : ExecState V) (hA : s.registry.get a.datasource = some connA)
    (hB : s.registry.get b.datasource = some connB) :
    (executeJoin env query [a, b] s).result =
      match (env.chaos s.calls a.datasource).or
      (env.chaos (s.calls + 1) b.datasource) with
      | some err => Fallible.fail err
      | none => do
          let sides ← joinReplies a.datasource b.datasource
            (timedAnswer env s.calls a.datasource connA (joinSubQuery a))
            (timedAnswer env (s.calls + 1) b.datasource connB (joinSubQuery b))
          let batches ← joinAnswers query sides.1 sides.2
          return {
            batches
            datasources := [a.datasource, b.datasource]
            partialErrors := [] } := by
  simp only [executeJoin, bind, Exec.registry, Traced.getState, pure, hA, hB,
    Exec.nextCall, Traced.modifyState]
  cases (env.chaos s.calls a.datasource).or
      (env.chaos (s.calls + 1) b.datasource) with
  | some err => rfl
  | none =>
    simp only [Traced.emit, Exec.liftFallible, Traced.lift, joinSubQuery]
    generalize joinReplies a.datasource b.datasource _ _ = replies
    cases replies with
    | error e => rfl
    | ok sides =>
      cases hjoined : joinAnswers query sides.1 sides.2 with
      | error e => simp [Except.bind, hjoined]
      | ok batches => simp [Except.bind, Except.pure, hjoined]

omit [SqlParser] in
theorem executeJoin_answered {env : Env V} {query : Str} {a b : TableRef}
    {s : ExecState V} {batchesA batchesB joined : List (RecordBatch V)}
    (hA : s.registry.get a.datasource = some .external)
    (hB : s.registry.get b.datasource = some .external)
    (hchaos : ∀ number ds, env.chaos number ds = none)
    (hlate : ∀ number ds sq, env.late number ds sq = false)
    (hanswerA : env.execute s.calls a.datasource (joinSubQuery a) =
      .ok batchesA)
    (hanswerB : env.execute (s.calls + 1) b.datasource (joinSubQuery b) =
      .ok batchesB)
    (hjoined : joinAnswers query ⟨a.datasource, batchesA⟩
      ⟨b.datasource, batchesB⟩ = .ok joined) :
    (executeJoin env query [a, b] s).result =
      .ok ⟨joined, [a.datasource, b.datasource], []⟩ := by
  simp only [executeJoin_result env query s hA hB, hchaos, Option.or,
    timedAnswer, hlate,
    Bool.false_eq_true, if_false, hanswerA, hanswerB, joinReplies, bind,
    Except.bind, hjoined]
  rfl

omit [SqlParser] in
theorem executeJoin_ok {env : Env V} {query : Str} {refs : List TableRef}
    {s : ExecState V} {fed : FederatedResult V} (hregistered : ∀ r ∈ refs,
      (s.registry.get r.datasource).isSome)
    (h : (executeJoin env query refs s).result = .ok fed) :
    ∃ a b connA connB batchesA batchesB, refs = [a, b] ∧
    s.registry.get a.datasource = some connA ∧
      s.registry.get b.datasource = some connB ∧
      timedAnswer env s.calls a.datasource connA (joinSubQuery a) =
        some (.ok batchesA) ∧
      timedAnswer env (s.calls + 1) b.datasource connB (joinSubQuery b) =
        some (.ok batchesB) ∧ fed.datasources = [a.datasource, b.datasource] ∧
      joinAnswers query ⟨a.datasource, batchesA⟩ ⟨b.datasource, batchesB⟩ =
        .ok fed.batches := by
  match refs with
  | [a, b] =>
    obtain ⟨connA, hA⟩ := Option.isSome_iff_exists.mp (hregistered a (by simp))
    obtain ⟨connB, hB⟩ := Option.isSome_iff_exists.mp (hregistered b (by simp))
    rw [executeJoin_result env query s hA hB] at h
    split at h
    · cases h
    obtain ⟨sides, hsides, h⟩ := Fallible.bind_eq_ok.mp h
    obtain ⟨batchesA, batchesB, hreplyA, hreplyB, rfl⟩ := joinReplies_ok hsides
    obtain ⟨joined, hjoined, h⟩ := Fallible.bind_eq_ok.mp h
    cases h
    exact ⟨a, b, connA, connB, batchesA, batchesB, rfl, hA, hB, hreplyA,
      hreplyB, rfl, hjoined⟩
  | [] => cases h
  | [_] => cases h
  | _ :: _ :: _ :: _ => cases h

def singleSubQuery (range : Option RangeParams) (built : SubQuery) : SubQuery :=
  { built with passthrough := range.or built.passthrough }

omit [ArrowKernels V] in
theorem executeSingle_result (env : Env V) (query format : Str) {ref : TableRef}
    (range : Option RangeParams) {connector : Connector V} (s : ExecState V)
    (hconnector : s.registry.get ref.datasource = some connector) :
    (executeSingle env query format ref range s).result = do
      let built ← buildSubQuery query format ref.table
      match env.chaos s.calls ref.datasource with
      | some err => Fallible.fail err
      | none =>
        match answer env s.calls ref.datasource connector
            (singleSubQuery range built) with
        | .error e => Fallible.fail e.toText
        | .ok batches => return {
            batches
            datasources := [ref.datasource]
            partialErrors := [] } := by
  simp only [executeSingle, bind, Exec.registry, Traced.getState, pure,
    hconnector, Exec.liftFallible, Traced.lift]
  cases buildSubQuery query format ref.table with
  | error e => rfl
  | ok built =>
    simp only [Exec.nextCall, Traced.getState, Traced.modifyState, bind,
      pure, Except.bind, singleSubQuery]
    cases env.chaos s.calls ref.datasource with
    | some err => rfl
    | none =>
      simp only [Traced.emit]
      cases answer env s.calls ref.datasource connector
          { built with passthrough := range.or built.passthrough } with
      | error e => rfl
      | ok batches => rfl

end Queries

end Fuse.Server
