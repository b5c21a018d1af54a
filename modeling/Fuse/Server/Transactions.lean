import Fuse.Server.WriteStatements

/-!
# Transactions

`BEGIN` opens a transaction, `COMMIT` makes the writes it holds and `ROLLBACK`
drops them.  An `INSERT INTO … SELECT` does not look at transactions: it
writes at once, and no statement hands a write to a transaction.  A session is
a run of requests from a `BEGIN` to the `COMMIT` or `ROLLBACK` that ends it;
some of the requests between them are the statements of the transaction.
-/

namespace Fuse.Server

open Foundation Fuse.Core Engine List
open Foundation.Traced (Spec SpecAt)

def writesOf (trace : List Call) : List TableRef := trace.filterMap fun
    | .execute _ _ => none
    | .write ds table => some ⟨ds, table⟩

theorem writesOf_append (trace trace' : List Call) :
    writesOf (trace ++ trace') = writesOf trace ++ writesOf trace' :=
  filterMap_append

section Sessions

variable {V : Type} [ArrowKernels V] [Unicode] [FloatOps] [SqlParser]

variable {s : AppState V} {cfg : Config}

theorem runSteps_noPending (cfg : Config) (rs : List (Request V))
    (hs : s.transactions = []) : NoPending (runSteps (stepState cfg) s rs) := by
  refine runSteps_inv (fun r _ s hs => stepState_noPending cfg r hs) ?_
  rw [NoPending, hs]
  simp

/-- The batches an `INSERT INTO … SELECT` has for its destination. -/
def selectedBatches (env : Env V) (s : ExecState V) (w : WriteSelect) :
    Option (List (RecordBatch V)) :=
  match firstSource w.select with
  | .ok (some src) =>
    (s.registry.get src.datasource).bind fun connector =>
      match buildSubQuery w.select "sql" src.table with
      | .ok sq =>
        (s.registry.get w.destination.datasource).bind fun _ =>
          (answer env s.calls src.datasource connector sq).toOption
      | .error _ => none
  | _ => none

/-- The write of an `INSERT INTO … SELECT`, if it has one to make. -/
def dueWrite (env : Env V) (s : ExecState V) (w : WriteSelect) :
    List TableRef :=
  (selectedBatches env s w).toList.map fun _ => w.destination

omit [ArrowKernels V] [Unicode] [FloatOps] [SqlParser] in
theorem writeTo_writes (env : Env V) (dest : TableRef)
    (batches : List (RecordBatch V)) (s : ExecState V) :
    ∃ reply, (writeTo env dest batches s).result = .ok reply ∧
      writesOf (writeTo env dest batches s).trace =
        (s.registry.get dest.datasource).toList.map fun _ => dest := by
  unfold writeTo
  rw [Exec.registry_bind]
  cases s.registry.get dest.datasource with
  | none => exact ⟨none, rfl, rfl⟩
  | some connector => exact ⟨_, rfl, rfl⟩

omit [ArrowKernels V] [FloatOps] [SqlParser] in
theorem writeAnswer_writes (env : Env V) (w : WriteSelect) (status : Nat)
    (message : Str) (batches : List (RecordBatch V)) (s : ExecState V) :
    writesOf (writeAnswer env w status message (.ok batches) s).trace =
      (s.registry.get w.destination.datasource).toList.map fun _ =>
      w.destination := by
  obtain ⟨reply, hreply, hwrites⟩ := writeTo_writes env w.destination batches s
  unfold writeAnswer
  dsimp only
  rw [Traced.bind_ok hreply, writesOf_append, hwrites]
  rcases reply with _ | ⟨e | rows⟩
  · exact append_nil _
  · exact append_nil _
  · exact append_nil _

omit [ArrowKernels V] in
theorem writeSelect_writes (env : Env V) (w : WriteSelect) (status : Nat)
    (message : Str)
    (s : ExecState V) : writesOf (writeSelect env w status message s).trace =
      dueWrite env s w := by
  unfold writeSelect dueWrite selectedBatches Exec.liftFallible
  cases firstSource w.select with
  | error e => rfl
  | ok found =>
    rw [Traced.lift_bind_ok rfl]
    cases found with
    | none => rfl
    | some src =>
      dsimp only
      rw [Exec.registry_bind]
      cases s.registry.get src.datasource with
      | none => rfl
      | some connector =>
        dsimp only
        cases buildSubQuery w.select "sql" src.table with
        | error e => cases e <;> rfl
        | ok sq =>
          change writesOf ((callConnector env src.datasource connector
            sq >>= writeAnswer env w status message) s).trace =
              ((s.registry.get w.destination.datasource).bind fun _ =>
                (answer env s.calls src.datasource connector
                  sq).toOption).toList.map fun _ => w.destination
          have hcall :
            (callConnector env src.datasource connector sq s).result =
              .ok (answer env s.calls src.datasource connector sq) :=
            rfl
          rw [Traced.bind_ok hcall, writesOf_append]
          cases answer env s.calls src.datasource connector sq with
          | error e =>
            cases s.registry.get w.destination.datasource <;> rfl
          | ok batches =>
            rw [writeAnswer_writes]
            change _ ++ (s.registry.get _).toList.map _ = _
            cases s.registry.get w.destination.datasource <;> rfl

theorem serve_insert_writes {r : Request V} {text : Str} {w : WriteSelect}
    (h : Performs r s text (.insertInto w)) :
    writesOf (serve cfg r s).trace = dueWrite r.env s.start.exec w := by
  rw [serve_of_performs h]
  exact writeSelect_writes r.env w 200 _ s.start.exec

inductive SessionEnd where
  | commit
  | rollback
  deriving DecidableEq, Repr

def SessionEnd.command (id : Str) : SessionEnd → Command
  | .commit => .commit (some id)
  | .rollback => .rollback (some id)

theorem serve_ending_trace {r : Request V} {text id : Str} {ending : SessionEnd}
    (hs : NoPending s) (h : Performs r s text (ending.command id)) :
    (serve cfg r s).trace = [] := by
  have hcalls : ∀ c ∈ (serve cfg r s).trace, False := by
    rw [serve_of_performs h]
    refine (perform_keeps (J := fun _ _ _ => True) (G := fun _ => False)
      (s := s.start) hs ?_ ?_ (s.afterRead r text) ⟨hs, trivial⟩).1
    · cases ending <;> simp [SessionEnd.command]
    · cases ending <;> trivial
  exact eq_nil_iff_forall_not_mem.mpr hcalls

structure SessionRequest (V : Type) where
  request : Request V
  insert : Option WriteSelect

structure Session (V : Type) where
  id : Str
  first : Request V
  requests : List (SessionRequest V)
  last : Request V
  ending : SessionEnd

def sessionStep (cfg : Config) (q : SessionRequest V) (s : AppState V) :
    AppState V :=
  stepState cfg q.request s

namespace Session

variable (cfg : Config) (session : Session V) (s : AppState V)

def opened : AppState V := stepState cfg session.first s

def closing : AppState V :=
  runSteps (sessionStep cfg) (session.opened cfg s) session.requests

structure WellFormed : Prop where
  first : ∃ text, Performs session.first s text (.begin session.id)
  requests : EveryStep (sessionStep cfg) (fun s q => ∀ w, q.insert = some w →
    ∃ text, Performs q.request s text (.insertInto w))
    (session.opened cfg s) session.requests
  last : ∃ text, Performs session.last (session.closing cfg s) text
    (session.ending.command session.id)

end Session

def dueWrites (cfg : Config) :
    AppState V → List (SessionRequest V) → List TableRef
  | _, [] => []
  | s, q :: qs =>
    (q.insert.map (dueWrite q.request.env s.start.exec)).getD [] ++
      dueWrites cfg (sessionStep cfg q s) qs

/-- No statement of the transaction writes before its end; a `COMMIT` then
makes the writes, each once and in order, and a `ROLLBACK` none. -/
def Session.Isolated (cfg : Config) (session : Session V) (s : AppState V) :
    Prop :=
  EveryStep (sessionStep cfg) (fun s q => q.insert.isSome = true →
      writesOf (serve cfg q.request s).trace = [])
    (session.opened cfg s) session.requests ∧
    writesOf (serve cfg session.last (session.closing cfg s)).trace =
      match session.ending with
      | .commit => dueWrites cfg (session.opened cfg s) session.requests
      | .rollback => []

theorem dueWrites_eq_nil_iff {qs : List (SessionRequest V)}
    (h : EveryStep (sessionStep cfg) (fun s q => ∀ w, q.insert = some w →
      ∃ text, Performs q.request s text (.insertInto w)) s qs) :
    EveryStep (sessionStep cfg) (fun s q => q.insert.isSome = true →
        writesOf (serve cfg q.request s).trace = []) s qs ↔
      dueWrites cfg s qs = [] := by
  induction qs generalizing s with
  | nil => exact ⟨fun _ => rfl, fun _ => trivial⟩
  | cons q qs ih =>
    obtain ⟨hq, hqs⟩ := h
    rw [dueWrites, append_eq_nil_iff, ← ih hqs]
    refine and_congr ?_ Iff.rfl
    dsimp only
    cases hinsert : q.insert with
    | none => simp
    | some w =>
      obtain ⟨text, hperforms⟩ := hq w hinsert
      rw [serve_insert_writes hperforms]
      simp

/--
From any state the server reaches, a transaction is isolated until its end
exactly where none of its statements has a write to make.
-/
theorem transaction_isolated_iff (cfg : Config) {s : AppState V}
    (hs : s.transactions = []) (before : List (Request V)) (session : Session V)
    (h : session.WellFormed cfg (runSteps (stepState cfg) s before)) :
    session.Isolated cfg (runSteps (stepState cfg) s before) ↔
      dueWrites cfg (session.opened cfg (runSteps (stepState cfg) s before))
        session.requests = [] := by
  have hpending := runSteps_noPending cfg before hs
  generalize runSteps (stepState cfg) s before = t at h hpending
  have hclosing : NoPending (session.closing cfg t) :=
    runSteps_inv (fun q _ s hs => stepState_noPending cfg q.request hs)
      (stepState_noPending cfg session.first hpending)
  obtain ⟨text, hlast⟩ := h.last
  unfold Session.Isolated
  rw [dueWrites_eq_nil_iff h.requests, serve_ending_trace hclosing hlast]
  constructor
  · exact fun hisolated => hisolated.1
  · intro hdue
    refine ⟨hdue, ?_⟩
    cases session.ending with
    | commit => exact hdue.symm
    | rollback => rfl

end Sessions

section Example

attribute [local instance] asciiUnicode integersOnly textCells

def copySession (select : Str) (ending : SessionEnd) : Session Str where
  id := "t1"
  first := askRows twoTables "BEGIN t1"
  requests := [{
    request := askRows twoTables ("INSERT INTO a.copy ".toList ++ select)
    insert := some ⟨⟨"a", "copy"⟩, select⟩ }]
  last := askRows twoTables (match ending with
    | .commit => "COMMIT t1"
    | .rollback => "ROLLBACK t1")
  ending

/-- The write is made although the transaction is rolled back, and a `COMMIT`
has none to make. -/
theorem rolled_back_insert_writes :
    letI := tableParser [("SELECT * FROM b.t", everything "b.t")]
    writesOf
      (serve {} (askRows twoTables "INSERT INTO a.copy SELECT * FROM b.t")
      ((copySession "SELECT * FROM b.t" .rollback).opened
        {} freshServer)).trace = [⟨"a", "copy"⟩] ∧
    (serve {} (askRows twoTables "ROLLBACK t1")
      ((copySession "SELECT * FROM b.t" .rollback).closing {}
        freshServer)).result = .ok (.rolledBack "t1") ∧
    (serve {} (askRows twoTables "COMMIT t1")
      ((copySession "SELECT * FROM b.t" .commit).closing {}
        freshServer)).result = .ok (.committed "t1" []) := by
  refine ⟨by decide +kernel, by decide +kernel, by decide +kernel⟩

private theorem copySession_wellFormed :
    letI := tableParser []
    (copySession "SELECT * FROM c.t" .commit).WellFormed {} freshServer := by
  let := tableParser []
  refine ⟨⟨"BEGIN t1", ?_, ?_, ?_⟩, ⟨?_, trivial⟩, ⟨"COMMIT t1", ?_, ?_, ?_⟩⟩
  · decide +kernel
  · rfl
  · decide +kernel
  · rintro w hw
    cases hw
    refine ⟨"INSERT INTO a.copy SELECT * FROM c.t", ?_, ?_, ?_⟩
    · decide +kernel
    · decide +kernel
    · decide +kernel
  · decide +kernel
  · decide +kernel
  · decide +kernel

theorem transaction_isolated_without_source :
    letI := tableParser []
    (copySession "SELECT * FROM c.t" .commit).Isolated {} freshServer := by
  let := tableParser []
  exact (transaction_isolated_iff {} rfl [] _ copySession_wellFormed).mpr
    (by decide +kernel)

end Example

end Fuse.Server
