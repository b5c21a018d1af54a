import Fuse.Engine.Materialized
import Fuse.Engine.SortOrder
import Fuse.Foundation.Runs

/-!
# The refresh scheduler

`fuse-server/src/refresh_scheduler.rs` polls for stale views and refreshes
them one after the other: it takes a snapshot of the view, runs the query and
applies the result to the view that has the name by then.  A `REFRESH`
statement runs next to it.  A run is any interleaving of these steps with
registrations, removals and the passing of time.
-/

namespace Fuse.Server

open Foundation Fuse.Core Engine List

structure RefreshSnapshot where
  name : Str
  query : Str
  isIncremental : Bool
  watermarkCol : Option Str
  lastWatermark : Option Str
  deriving DecidableEq, Repr

def sinceQuery (query column watermark : Str) : Str :=
  query ++ " WHERE " ++ column ++ " > '" ++ watermark ++ "'"

def RefreshSnapshot.effectiveQuery (snap : RefreshSnapshot) : Str :=
  if snap.isIncremental then
    match snap.watermarkCol, snap.lastWatermark with
    | some column, some watermark => sinceQuery snap.query column watermark
    | _, _ => snap.query
  else snap.query

section Refresh

variable {V : Type}

def RefreshSnapshot.ofView (name : Str) (view : MaterializedView V) :
    RefreshSnapshot where
  name
  query := view.definition.query
  isIncremental := view.isIncremental
  watermarkCol := view.watermarkColumn
  lastWatermark := view.watermark

variable [ArrowKernels V]

def textColumn (column : Str) (batch : RecordBatch V) :
    Option (List (Option Str)) := do
  let i ← batch.schema.indexOf column
  let field ← batch.schema[i]?
  if field.dataType = .utf8 then
    return batch.rows.map fun row => row[i]?.join.map ArrowKernels.display
  else if ArrowKernels.canCast V field.dataType .utf8 then
    return batch.rows.map fun row => row[i]?.join.bind fun v =>
      (ArrowKernels.castValue field.dataType .utf8 v).map ArrowKernels.display
  else none

/-- The largest value of a column that is not NULL; a batch without the column
gives none at all. -/
def extractMaxWatermark (batches : List (RecordBatch V)) (column : Str) :
    Option Str := do
  let columns ← batches.mapM (textColumn column)
  (columns.flatten.filterMap id).max?

def applyRefresh (now : Nat) (snap : RefreshSnapshot)
    (result : Except Str (List (RecordBatch V)))
    (view : MaterializedView V) : MaterializedView V :=
  match result with
  | .error e => view.setError e
  | .ok batches =>
    let newWatermark := if snap.isIncremental then
        extractMaxWatermark batches (snap.watermarkCol.getD [])
      else none
    if snap.isIncremental && snap.lastWatermark.isSome then
      view.appendResults now batches newWatermark
    else
      { view.setResults now batches with
        watermark := newWatermark.or view.watermark }

def applyStatement (now : Nat) (result : Except Str (List (RecordBatch V)))
    (view : MaterializedView V) : MaterializedView V :=
  match result with
  | .ok batches => view.setResults now batches
  | .error e => view.setError e

@[simp] theorem applyRefresh_definition (now : Nat) (snap : RefreshSnapshot)
    (result : Except Str (List (RecordBatch V))) (view : MaterializedView V) :
    (applyRefresh now snap result view).definition = view.definition := by
  unfold applyRefresh
  split
  · rfl
  · dsimp only
    split <;> rfl

theorem mem_applyRefresh {now : Nat} {snap : RefreshSnapshot}
    {result : Except Str (List (RecordBatch V))} {view : MaterializedView V}
    {b : RecordBatch V} (hb : b ∈ (applyRefresh now snap result view).batches) :
    b ∈ view.batches ∨ ∃ batches, result = .ok batches ∧ b ∈ batches := by
  unfold applyRefresh at hb
  split at hb
  · exact Or.inl hb
  rename_i batches
  dsimp only at hb
  split at hb
  · rcases mem_append.mp hb with hb | hb
    · exact Or.inl hb
    · exact Or.inr ⟨batches, rfl, hb⟩
  · exact Or.inr ⟨batches, rfl, hb⟩

structure RefreshJob (V : Type) where
  snapshot : RefreshSnapshot
  result : Option (Except Str (List (RecordBatch V))) := none

structure StatementRefresh (V : Type) where
  name : Str
  cell : Nat
  query : Str
  result : Option (Except Str (List (RecordBatch V))) := none

structure ViewsState (V : Type) where
  clock : Nat := 0
  cells : Nat := 0
  views : MaterializedViewRegistry V := ∅
  queue : List Str := []
  job : Option (RefreshJob V) := none
  statements : AList (fun _ : Nat => StatementRefresh V) := ∅

inductive ViewEvent (V : Type) where
  | tick (d : Nat)
  | register (definition : MaterializedViewDef)
  | remove (name : Str)
  | poll (stale : List Str)
  | snapshot
  | execute (result : Except Str (List (RecordBatch V)))
  | apply
  | statementBegin (id : Nat) (name : Str)
  | statementExecute (id : Nat) (result : Except Str (List (RecordBatch V)))
  | statementApply (id : Nat)

namespace ViewsState

def takeSnapshot (s : ViewsState V) : ViewsState V :=
  match s.job, s.queue with
  | none, name :: queue =>
    { s with
      queue
      job := (s.views.get name).map fun entry =>
        { snapshot := .ofView name entry.view } }
  | _, _ => s

def executeJob (result : Except Str (List (RecordBatch V))) (s : ViewsState V) :
    ViewsState V :=
  match s.job with
  | some ⟨snapshot, none⟩ =>
    { s with job := some { snapshot, result := some result } }
  | _ => s

def applyJob (s : ViewsState V) : ViewsState V :=
  match s.job with
  | some ⟨snapshot, some result⟩ =>
    { s with
      job := none
      views := s.views.write snapshot.name
        (applyRefresh s.clock snapshot result) }
  | _ => s

def beginStatement (id : Nat) (name : Str) (s : ViewsState V) : ViewsState V :=
  match s.statements.lookup id, s.views.get name with
  | none, some entry =>
    { s with
      statements := s.statements.insert id
        { name, cell := entry.cell, query := entry.view.definition.query } }
  | _, _ => s

def executeStatement (id : Nat) (result : Except Str (List (RecordBatch V)))
    (s : ViewsState V) : ViewsState V :=
  match s.statements.lookup id with
  | some ⟨name, cell, query, none⟩ =>
    { s with
      statements := s.statements.insert id
        { name, cell, query, result := some result } }
  | _ => s

def finishStatement (id : Nat) (s : ViewsState V) : ViewsState V :=
  match s.statements.lookup id with
  | some ⟨name, cell, _, some result⟩ =>
    { s with
      statements := s.statements.erase id
      views := s.views.writeCell name cell (applyStatement s.clock result) }
  | _ => s

def step : ViewEvent V → ViewsState V → ViewsState V
  | .tick d, s => { s with clock := s.clock + d }
  | .register definition, s =>
    { s with
      cells := s.cells + 1
      views := s.views.register s.cells definition }
  | .remove name, s => { s with views := s.views.remove name }
  | .poll stale, s =>
    if s.job.isNone && s.queue.isEmpty && stale.isPerm
      (s.views.staleViews s.clock) then
      { s with queue := stale }
    else s
  | .snapshot, s => s.takeSnapshot
  | .execute result, s => s.executeJob result
  | .apply, s => s.applyJob
  | .statementBegin id name, s => s.beginStatement id name
  | .statementExecute id result, s => s.executeStatement id result
  | .statementApply id, s => s.finishStatement id

variable {result : Except Str (List (RecordBatch V))}

theorem applyJob_eq {s : ViewsState V} {snapshot : RefreshSnapshot}
    (h : s.job = some ⟨snapshot, some result⟩) : s.applyJob =
      { s with
        job := none
        views := s.views.write snapshot.name
          (applyRefresh s.clock snapshot result) } := by
  simp [applyJob, h]

omit [ArrowKernels V] in
theorem finishStatement_eq {s : ViewsState V} {id cell : Nat} {name query : Str}
    (h : s.statements.lookup id = some ⟨name, cell, query, some result⟩) :
    s.finishStatement id =
      { s with
        statements := s.statements.erase id
        views := s.views.writeCell name cell
          (applyStatement s.clock result) } := by
  simp [finishStatement, h]

def defined (name : Str) (s : ViewsState V) : Option MaterializedViewDef :=
  (s.views.get name).map (·.view.definition)

/-- What registering and removing leave defined under a name. -/
def redefine (name : Str) (held : Option MaterializedViewDef) :
    ViewEvent V → Option MaterializedViewDef
  | .register definition =>
    if name = definition.name then some definition else held
  | .remove removed => if name = removed then none else held
  | _ => held

theorem defined_step (name : Str) (e : ViewEvent V) (s : ViewsState V) :
    (step e s).defined name = redefine name (s.defined name) e := by
  cases e with
  | tick d => rfl
  | register definition | remove removed =>
    simp only [step, defined, redefine, MaterializedViewRegistry.get_register,
      MaterializedViewRegistry.get_remove]
    split <;> rfl
  | poll stale | snapshot | execute result | statementBegin id name
      | statementExecute id result =>
    simp only [step, takeSnapshot, executeJob, beginStatement, executeStatement]
    split <;> rfl
  | apply =>
    simp only [step, applyJob]
    split
    · simp [defined, redefine, Function.comp_def, apply_ite]
    · rfl
  | statementApply id =>
    simp only [step, finishStatement]
    split
    · rename_i result _
      cases result <;> simp [defined, redefine, Function.comp_def, apply_ite,
        applyStatement,
        MaterializedViewRegistry.get_writeCell, MaterializedView.setResults,
        MaterializedView.setError]
    · rfl

/-- No refresh, however late, brings a view back or changes its definition. -/
theorem views_follow_definitions (events : List (ViewEvent V)) (name : Str) :
    (runSteps step {} events).defined name =
      events.foldl (redefine name) none :=
  (foldl_hom (defined name) fun s e => (defined_step name e s).symm).symm

end ViewsState

end Refresh

section Definitions

variable {V : Type}

structure RefreshSnapshot.Of (snap : RefreshSnapshot)
    (definition : MaterializedViewDef) : Prop where
  query : snap.query = definition.query
  column : ∀ column, snap.watermarkCol = some column →
    definition.refreshMode = .incremental column

/-- Running the query of the definition, for all rows or for those above some
watermark, may give the batch; `results` says what a text may give. -/
def ProducedBy (results : Str → RecordBatch V → Prop)
    (definition : MaterializedViewDef) (b : RecordBatch V) : Prop :=
  results definition.query b ∨ ∃ column watermark,
    definition.refreshMode = .incremental column ∧
      results (sinceQuery definition.query column watermark) b

theorem RefreshSnapshot.of_ofView (name : Str) (view : MaterializedView V) :
    (RefreshSnapshot.ofView name view).Of view.definition where
  query := rfl
  column column h := by
    simp only [RefreshSnapshot.ofView, MaterializedView.watermarkColumn] at h
    split at h
    · rename_i mode hmode
      cases h
      exact hmode
    · cases h

variable {definition : MaterializedViewDef}

theorem RefreshSnapshot.Of.producedBy {results : Str → RecordBatch V → Prop}
    {snap : RefreshSnapshot} {b : RecordBatch V} (h : snap.Of definition)
    (hb : results snap.effectiveQuery b) : ProducedBy results definition b := by
  unfold RefreshSnapshot.effectiveQuery at hb
  rw [h.query] at hb
  split at hb
  · split at hb
    · next column watermark hcolumn _ =>
        exact Or.inr ⟨column, watermark, h.column column hcolumn, hb⟩
    · exact Or.inl hb
  · exact Or.inl hb

variable (results : Str → RecordBatch V → Prop)

/-- The steps of the scheduler, registrations and removals, where a query
gives what its text may give. -/
def SchedulerStep (s : ViewsState V) : ViewEvent V → Prop
  | .execute (.ok batches) => ∀ job, s.job = some job →
      ∀ b ∈ batches, results job.snapshot.effectiveQuery b
  | .statementBegin _ _ | .statementExecute _ _ | .statementApply _ => False
  | .tick _ | .register _ | .remove _ | .poll _ | .snapshot
  | .execute (.error _) | .apply => True

/-- While a refresh of a name is in flight, only the definition that it was
started for is registered under the name. -/
def KeepsDefinition (s : ViewsState V) : ViewEvent V → Prop
  | .register definition => ∀ job, s.job = some job →
      job.snapshot.name = definition.name → job.snapshot.Of definition
  | _ => True

/-- What every step keeps: the data of the views and of the refresh in flight
belong to the definitions registered. -/
structure OwnData (s : ViewsState V) : Prop where
  views : ∀ name entry, s.views.get name = some entry →
    ∀ b ∈ entry.view.batches, ProducedBy results entry.view.definition b
  job : ∀ job, s.job = some job → ∀ entry,
    s.views.get job.snapshot.name = some entry →
      job.snapshot.Of entry.view.definition
  result : ∀ job batches, s.job = some job →
    job.result = some (.ok batches) →
      ∀ b ∈ batches, results job.snapshot.effectiveQuery b

variable {results} [ArrowKernels V] {s : ViewsState V}

theorem OwnData.register (hs : OwnData results s)
    (h : KeepsDefinition s (.register definition)) :
    OwnData results (ViewsState.step (.register definition) s) where
  views name entry hentry := by
    simp only [ViewsState.step, MaterializedViewRegistry.get_register] at hentry
    split at hentry
    · cases hentry
      simp
    · exact hs.views name entry hentry
  job job hjob entry hentry := by
    simp only [ViewsState.step, MaterializedViewRegistry.get_register] at hentry
    split at hentry
    · rename_i hname
      cases hentry
      exact h job hjob hname
    · exact hs.job job hjob entry hentry
  result := hs.result

theorem OwnData.remove (hs : OwnData results s) (removed : Str) :
    OwnData results (ViewsState.step (.remove removed) s) where
  views name entry hentry := by
    simp only [ViewsState.step, MaterializedViewRegistry.get_remove] at hentry
    split at hentry
    · cases hentry
    · exact hs.views name entry hentry
  job job hjob entry hentry := by
    simp only [ViewsState.step, MaterializedViewRegistry.get_remove] at hentry
    split at hentry
    · cases hentry
    · exact hs.job job hjob entry hentry
  result := hs.result

omit [ArrowKernels V] in
theorem OwnData.takeSnapshot (hs : OwnData results s) :
    OwnData results s.takeSnapshot := by
  unfold ViewsState.takeSnapshot
  split
  · rename_i name queue _ _
    refine ⟨hs.views, ?_, ?_⟩
    · intro job hjob entry hentry
      obtain ⟨found, hfound, rfl⟩ := Option.map_eq_some_iff.mp hjob
      change s.views.get name = some entry at hentry
      rw [hfound] at hentry
      obtain rfl := Option.some.inj hentry
      exact RefreshSnapshot.of_ofView name found.view
    · intro job batches hjob hresult
      obtain ⟨found, -, rfl⟩ := Option.map_eq_some_iff.mp hjob
      cases hresult
  · exact hs

omit [ArrowKernels V] in
theorem OwnData.executeJob {result : Except Str (List (RecordBatch V))}
    (hs : OwnData results s) (h : SchedulerStep results s (.execute result)) :
    OwnData results (s.executeJob result) := by
  unfold ViewsState.executeJob
  split
  · rename_i snapshot hjob
    refine ⟨hs.views, ?_, ?_⟩
    · intro job heq entry hentry
      cases heq
      exact hs.job _ hjob entry hentry
    · intro job batches heq hresult
      obtain rfl := Option.some.inj heq
      obtain rfl := Option.some.inj hresult
      exact fun b hb => h ⟨snapshot, none⟩ hjob b hb
  · exact hs

theorem OwnData.applyJob (hs : OwnData results s) :
    OwnData results s.applyJob := by
  unfold ViewsState.applyJob
  split
  · rename_i snapshot result hjob
    refine ⟨?_, fun _ hnone => ?_, fun _ _ hnone => ?_⟩
    case refine_2 | refine_3 => cases hnone
    intro name entry hentry b hb
    simp only [MaterializedViewRegistry.get_write] at hentry
    obtain ⟨found, hfound, rfl⟩ := Option.map_eq_some_iff.mp hentry
    split at hb
    · rename_i hname
      subst hname
      simp only [if_true, applyRefresh_definition]
      rcases mem_applyRefresh hb with hold | ⟨batches, rfl, hnew⟩
      · exact hs.views _ found hfound b hold
      · exact (hs.job _ hjob found hfound).producedBy
          (hs.result _ batches hjob rfl b hnew)
    · rename_i hname
      simp only [hname, if_false]
      exact hs.views name found hfound b hb
  · exact hs

theorem OwnData.step {e : ViewEvent V} (hs : OwnData results s)
    (h : SchedulerStep results s e ∧ KeepsDefinition s e) :
    OwnData results (ViewsState.step e s) := by
  obtain ⟨hstep, hkeeps⟩ := h
  cases e with
  | tick d => exact ⟨hs.views, hs.job, hs.result⟩
  | register definition => exact hs.register hkeeps
  | remove name => exact hs.remove name
  | poll stale =>
    simp only [ViewsState.step]
    split
    · exact ⟨hs.views, hs.job, hs.result⟩
    · exact hs
  | snapshot => exact hs.takeSnapshot
  | execute result => exact hs.executeJob hstep
  | apply => exact hs.applyJob
  | statementBegin id name | statementExecute id result | statementApply id =>
    exact hstep.elim

omit [ArrowKernels V] in
private theorem mem_getResults {views : MaterializedViewRegistry V} {name : Str}
    {batches : List (RecordBatch V)}
    (h : views.getResults name = some batches) :
    ∃ entry, views.get name = some entry ∧ entry.view.batches = batches := by
  obtain ⟨entry, hentry, hbatches⟩ := Option.bind_eq_some_iff.mp h
  split at hbatches
  · cases hbatches
  · cases hbatches
    exact ⟨entry, hentry, rfl⟩

/--
What a reader gets for a name was given by the query of the definition that is
registered under it, in every run where a definition is not replaced by
another one while a refresh of it is in flight.
-/
theorem view_holds_own_data (events : List (ViewEvent V))
    (h : EveryStep ViewsState.step (fun s e => SchedulerStep results s e ∧
      KeepsDefinition s e)
      {} events) {name : Str} {batches : List (RecordBatch V)}
    (hread : (runSteps ViewsState.step {} events).views.getResults name =
      some batches) :
    ∃ entry, (runSteps ViewsState.step {} events).views.get name = some entry ∧
        ∀ b ∈ batches, ProducedBy results entry.view.definition b := by
  have hinit : OwnData results ({} : ViewsState V) := by
    refine ⟨fun _ _ hnone => ?_, fun _ hnone => ?_, fun _ _ hnone => ?_⟩ <;>
      cases hnone
  have hown := EveryStep.inv_runSteps (fun s e hs he => hs.step he) hinit h
  obtain ⟨entry, hentry, rfl⟩ := mem_getResults hread
  exact ⟨entry, hentry, hown.views name entry hentry⟩

end Definitions

section Example

attribute [local instance] textCells

def queryBatch (query : Str) : RecordBatch Str where
  schema := [{ name := "query", dataType := .utf8, nullable := true }]
  rows := [[some query]]
  fits := by simp [rowFits]

def showsQuery (query : Str) (b : RecordBatch Str) : Prop :=
  b.rows = [[some query]]

def viewOn (source : Str) : MaterializedViewDef where
  name := "v"
  query := "SELECT * FROM " ++ source
  refreshInterval := 60

def refreshAround (between : List (ViewEvent Str)) : List (ViewEvent Str) :=
  [.register (viewOn "a.t"), .poll ["v"], .snapshot] ++ between ++
    [.execute (.ok [queryBatch (viewOn "a.t").query]), .apply]

theorem redefined_view_holds_old_data :
    EveryStep ViewsState.step (SchedulerStep showsQuery) {}
        (refreshAround [.register (viewOn "b.t")]) ∧
      ((runSteps ViewsState.step {}
        (refreshAround [.register (viewOn "b.t")])).views.get "v").map
          (·.view.definition) = some (viewOn "b.t") ∧
      ((runSteps ViewsState.step {}
        (refreshAround [.register (viewOn "b.t")])).views.getResults
          "v").map (·.flatMap (·.rows)) = some
        [[some "SELECT * FROM a.t".toList]] := by
  refine ⟨⟨trivial, trivial, trivial, trivial, ?_, trivial, trivial⟩,
    by decide +kernel, by decide +kernel⟩
  intro job hjob b hb
  obtain rfl := Option.some.inj hjob
  rw [mem_singleton.mp hb]
  rfl

theorem view_holds_own_data_undisturbed :
    ∃ entry, (runSteps ViewsState.step {} (refreshAround [])).views.get "v" =
        some entry ∧
      ∀ b ∈ [queryBatch (viewOn "a.t").query],
        ProducedBy showsQuery entry.view.definition b := by
  refine view_holds_own_data (refreshAround []) ⟨⟨trivial, ?_⟩,
    ⟨trivial, trivial⟩, ⟨trivial, trivial⟩, ⟨?_, trivial⟩, ⟨trivial, trivial⟩,
    trivial⟩ rfl
  · intro job hjob
    cases hjob
  · intro job hjob b hb
    obtain rfl := Option.some.inj hjob
    rw [mem_singleton.mp hb]
    rfl

end Example

end Fuse.Server
