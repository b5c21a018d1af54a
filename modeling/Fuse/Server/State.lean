import Fuse.Foundation.Caches
import Fuse.Server.PostProcess
import Fuse.Server.Statements

/-!
# Requests, replies and the state of the server

What the query endpoint receives, what it answers and what it keeps between
requests: registered connectors, prepared statements, the result and the plan
cache (`plan_cache.rs`), open transactions (`transaction.rs`) and views
(`fuse-engine/src/materialized.rs`).  Latencies, costs, statistics, history
and the audit log are not modelled.
-/

namespace Fuse.Server

open Foundation Fuse.Core Engine List

structure TenantConfig where
  tenantId : Str
  allowedDatasources : List Str := []
  maxRows : Option Nat := none
  maxTimeMs : Option Nat := none
  maxResultBytes : Option Nat := none
  deriving DecidableEq, Repr

def TenantConfig.canAccess (config : TenantConfig) (ds : Str) : Bool :=
  config.allowedDatasources.isEmpty || ds ∈ config.allowedDatasources

abbrev TenantRegistry := List TenantConfig

namespace TenantRegistry

def isEnabled (registry : TenantRegistry) : Bool := !registry.isEmpty

def get (registry : TenantRegistry) (tenantId : Str) : Option TenantConfig :=
  registry.reverse.find? (·.tenantId = tenantId)

def filterDatasources (registry : TenantRegistry) (tenantId : Str)
    (datasources : List Str) : List Str :=
  match registry.get tenantId with
  | some config => datasources.filter config.canAccess
  | none => if registry.isEnabled then [] else datasources

theorem mem_filterDatasources {registry : TenantRegistry} {tenantId ds : Str}
    {datasources : List Str} :
    ds ∈ registry.filterDatasources tenantId datasources ↔
      ds ∈ datasources ∧ ds ∈ registry.filterDatasources tenantId [ds] := by
  unfold filterDatasources
  split
  · simp
  · split <;> simp

end TenantRegistry

def exceededText (tenantId limit unit : Str) (value max : Nat) : Str :=
  "tenant '" ++ tenantId ++ "' exceeded " ++ limit ++ " limit: " ++
    Str.ofNat value ++ unit ++ " > " ++ Str.ofNat max ++ unit

def overLimit (value : Nat) (limit : Option Nat) : Option Nat :=
  limit.filter (· < value)

/-- `QueryGovernor::check_limits`: the message of the first limit exceeded. -/
def checkLimits (config : TenantConfig) (rowCount resultBytes
    elapsedMs : Nat) : Option Str :=
  ((overLimit rowCount config.maxRows).map
      (exceededText config.tenantId "max_rows" "" rowCount)).or <|
    ((overLimit resultBytes config.maxResultBytes).map
      (exceededText config.tenantId "max_result_bytes" "" resultBytes)).or <|
    (overLimit elapsedMs config.maxTimeMs).map
      (exceededText config.tenantId "max_time_ms" "ms" elapsedMs)

inductive Role where
  | viewer | editor | admin
  deriving DecidableEq, Repr

def Role.text : Role → Str
  | viewer => "viewer"
  | editor => "editor"
  | admin => "admin"

structure AuthIdentity where
  identity : Str
  role : Role
  deriving DecidableEq, Repr

structure QueryRequest where
  query : Str
  format : Str := "sql"
  analyze : Bool := false
  resultFormat : Str := "json"
  params : Params := []
  start : Option Str := none
  stop : Option Str := none
  step : Option Str := none
  page : PageRequest := {}
  deriving DecidableEq, Repr

structure Config where
  tenants : TenantRegistry := []
  columnRbac : Option PolicyEngine := none
  maxResultBytes : Nat := 0

structure Request (V : Type) where
  env : Env V
  auth : Option AuthIdentity := none
  body : QueryRequest

namespace Request

variable {V : Type} (r : Request V)

def tenantId : Option Str :=
  (r.auth.map (·.identity)).or
    ((r.body.params.lookup "_tenant_id".toList).bind ParamValue.asStr)

def userContext : UserContext where
  username := r.tenantId.getD []
  roles := (r.auth.map fun a => [a.role.text]).getD []

def format [Unicode] : Str := toLowercase r.body.format

def range : Option RangeParams :=
  match r.body.start, r.body.stop, r.body.step with
  | some start, some stop, some step => some { start, stop, step }
  | _, _, _ => none

end Request

structure QueryResponse where
  columns : List Str
  rows : List (List (Option Str))
  totalRows : Nat
  format : Str
  traceId : Str
  datasourcesQueried : Option (List Str)
  profiled : Bool
  partialErrors : List PartialError
  nextCursor : Option Str
  deriving DecidableEq, Repr

inductive CommitOutcome where
  | written (datasource table : Str) (rows : Nat)
  | failed (datasource table error : Str)
  | missing (datasource : Str)
  deriving DecidableEq, Repr

inductive Reply where
  | result (response : QueryResponse)
  | exported (format : Str) (columns : List Str)
    (rows : List (List (Option Str)))
  | prepared (name : Str) (statement : PreparedStatement)
  | transactionActive (id : Str)
  | committed (id : Str) (outcomes : List CommitOutcome)
  | rolledBack (id : Str)
  | written (status : Nat) (message : Str) (rowsWritten rowsSelected : Nat)
  | viewDefined (message name query : Str)
  | viewCreated (message name query : Str) (rowCount : Nat)
    (refreshError : Option Str)
  | refreshed (view : Str) (rowCount : Nat)
  | error (status : Nat) (message : Str)
  deriving DecidableEq, Repr

def errorJson (status : Nat) (message : Str) : Reply :=
  if 500 ≤ status && !Str.contains "timed out" message &&
    !Str.contains "cancelled" message then
    .error status "internal server error"
  else .error status message

def connectorErrorStatus [Unicode] (message : Str) : Nat :=
  let lower := toLowercase message
  let has (words : List String) := words.any fun w => Str.contains w lower
  if has ["credential", "authentication", "security token", "signing",
      "connection refused", "connect error", "unreachable"] then 502
  else if has ["not found", "does not exist"] then 404
  else if has ["timed out", "timeout"] then 408
  else if has ["exceeds"] && has ["limit"] then 413
  else if has ["permission", "unauthorized", "not authorized",
      "access denied", "accessdenied"] then 403
  else 500

structure CachedPlan where
  sources : List TableRef
  isUnion : Bool
  isJoin : Bool
  clauses : PlanClauses
  deriving DecidableEq, Repr

def normalizeQuery [Unicode] (sql : Str) : Str :=
  toLowercase (Str.joinWith " " (Str.splitWhitespace sql))

structure PendingWrite (V : Type) where
  datasource : Str
  table : Str
  batches : List (RecordBatch V)

structure View (V : Type) where
  query : Str
  batches : List (RecordBatch V) := []
  error : Option Str := none

structure AppState (V : Type) where
  exec : ExecState V
  prepared : List (Str × PreparedStatement) := []
  resultCache : TtlCache Str QueryResponse
  planCache : TtlCache Str CachedPlan
  transactions : List (Str × List (PendingWrite V)) := []
  views : List (Str × View V) := []

def bindKey {α : Type} (key : Str) (value : α) (entries : List (Str × α)) :
    List (Str × α) :=
  (key, value) :: entries.filter (·.1 ≠ key)

theorem mem_of_lookup {α : Type} {key : Str} {value : α}
    {entries : List (Str × α)}
    (h : entries.lookup key = some value) : (key, value) ∈ entries := by
  induction entries with
  | nil => cases h
  | cons e entries ih =>
    rw [lookup_cons] at h
    split at h
    · rename_i heq
      cases h
      rw [beq_iff_eq] at heq
      rw [heq]
      exact mem_cons_self
    · exact mem_cons_of_mem e (ih h)

abbrev Handler (V : Type) := Traced Failure (AppState V) Call

namespace Handler

variable {V α β : Type}

def liftFallible (x : Fallible α) : Handler V α := Traced.lift x

theorem liftFallible_ok {x : Fallible α} {a : α} (h : x = .ok a)
    (f : α → Handler V β)
    (s : AppState V) : (liftFallible x >>= f : Handler V β) s = f a s :=
  Traced.lift_bind_ok h f s

theorem liftFallible_error {x : Fallible α} {e : Failure} (h : x = .error e)
    (f : α → Handler V β)
    (s : AppState V) : (liftFallible x >>= f : Handler V β) s =
      ⟨.error e, s, []⟩ :=
  Traced.lift_bind_error h f s

def runExec (m : Exec V α) : Handler V α :=
  Traced.zoom AppState.exec (fun e s => { s with exec := e }) m

end Handler

end Fuse.Server
