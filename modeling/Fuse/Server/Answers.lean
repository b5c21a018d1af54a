import Fuse.Core.Relation
import Fuse.Server.Fanout

/-!
# Sources that answer

What the three ways to run a query return when every source is registered and
answers: on one source the rows it holds for the sub-query, on a fan-out the
rows of each source in turn, tagged.
-/

namespace Fuse.Server

open Foundation Fuse.Core Engine List

variable {V : Type}

def ExecState.External (s : ExecState V) (refs : List TableRef) : Prop :=
  ∀ r ∈ refs, s.registry.get r.datasource = some .external

def knowing (refs : List TableRef) : ExecState V where
  registry := refs.map fun r => (r.datasource, .external)

theorem knowing_external (refs : List TableRef) :
    (knowing refs : ExecState V).External refs := by
  induction refs with
  | nil => simp [ExecState.External]
  | cons first rest ih =>
    intro r hr
    simp only [knowing, Registry.get, map_cons, lookup_cons]
    split
    · rfl
    rename_i hne
    rcases mem_cons.mp hr with rfl | hr
    · simp at hne
    · exact ih r hr

theorem ExecState.External.registered {s : ExecState V} {refs : List TableRef}
    (h : s.External refs) : ∀ r ∈ refs,
    (s.registry.get r.datasource).isSome := by
  intro r hr
  rw [h r hr]
  rfl

/-- Every call with a sub-query of a kind is answered, in batches of one
schema. -/
structure Env.Replies (env : Env V) (kind : SubQuery → Prop)
    (schema : Str → SubQuery → Schema)
    (rows : Str → SubQuery → List (Row V)) : Prop where
  chaos : ∀ number ds, env.chaos number ds = none
  late : ∀ number ds sq, env.late number ds sq = false
  execute : ∀ number ds sq, kind sq → ∃ batches,
    env.execute number ds sq = .ok batches ∧
      (∀ b ∈ batches, b.schema = schema ds sq) ∧
      batches.flatMap (·.rows) = rows ds sq

theorem unionTasks_external {s : ExecState V} {refs : List TableRef}
    (hexternal : s.External refs) (base : SubQuery) :
    unionTasks s.registry base refs =
      refs.map fun r => ⟨r.datasource, .external, sourceSubQuery base r⟩ := by
  rw [unionTasks_eq, ← filterMap_eq_map]
  apply filterMap_congr
  intro r hr
  rw [hexternal r hr]
  rfl

theorem sourceAnswers_external {env : Env V} {s : ExecState V}
    {refs : List TableRef} (hexternal : s.External refs) (base : SubQuery) :
    sourceAnswers env s base refs = refs.mapIdx fun i r =>
      (r, (taskResult env (s.calls + i) ⟨r.datasource, .external,
          sourceSubQuery base r⟩).2) := by
  have htasks := unionTasks_external hexternal base
  apply ext_getElem
  · simp [sourceAnswers, htasks, taskResults]
  · intro i _ _
    simp [sourceAnswers, htasks, taskResults]

section Runs

variable [ArrowKernels V] [Unicode] [FloatOps] [SqlParser]

theorem buildSubQuery_sql (query table : Str) :
    ∃ sq, buildSubQuery query "sql" table = .ok sq ∧ sq.table = table := by
  unfold buildSubQuery sqlText
  rw [if_neg (by decide), pure_bind]
  cases sqlToSubquery query with
  | ok sq => exact ⟨{ sq with table }, rfl, rfl⟩
  | error e => exact ⟨{ table }, rfl, rfl⟩

variable {env : Env V} {kind : SubQuery → Prop}
  {schema : Str → SubQuery → Schema}
  {rows : Str → SubQuery → List (Row V)}

variable {s : ExecState V} {refs : List TableRef}

omit [ArrowKernels V] in
theorem Env.Replies.single (h : env.Replies kind schema rows)
    {query format : Str} {ref : TableRef}
    {built : SubQuery} (hexternal : s.External [ref])
    (hbuilt : buildSubQuery query format ref.table = .ok built)
    (range : Option RangeParams) (hkind : kind (singleSubQuery range built)) :
    ∃ fed, (executeSingle env query format ref range s).result = .ok fed ∧
    (∀ b ∈ fed.batches,
        b.schema = schema ref.datasource (singleSubQuery range built)) ∧
      fed.batches.flatMap (·.rows) = rows ref.datasource
        (singleSubQuery range built) ∧ fed.datasources = [ref.datasource] := by
  obtain ⟨batches, hbatches, hschema, hrows⟩ :=
    h.execute s.calls ref.datasource _ hkind
  refine ⟨⟨batches, [ref.datasource], []⟩, ?_, hschema, hrows, rfl⟩
  rw [executeSingle_result env query format range s
    (hexternal ref mem_cons_self), hbuilt]
  simp only [bind, Except.bind, h.chaos, answer, hbatches]
  rfl

omit [ArrowKernels V] [Unicode] [FloatOps] [SqlParser] in
theorem Env.Replies.each (h : env.Replies kind schema rows)
    (hexternal : s.External refs)
    {base : SubQuery} (hkind : ∀ r ∈ refs, kind (sourceSubQuery base r)) :
    ∀ a ∈ sourceAnswers env s base refs, ∃ batches, a.2 = .ok batches ∧
    (∀ b ∈ batches,
        b.schema = schema a.1.datasource (sourceSubQuery base a.1)) ∧
      batches.flatMap (·.rows) = rows a.1.datasource
          (sourceSubQuery base a.1) := by
  intro a ha
  rw [sourceAnswers_external hexternal] at ha
  obtain ⟨i, hi, rfl⟩ := mem_mapIdx.mp ha
  obtain ⟨batches, hbatches, hparts⟩ := h.execute (s.calls + i)
    refs[i].datasource _ (hkind refs[i] (getElem_mem hi))
  refine ⟨batches, ?_, hparts⟩
  simp [taskResult, h.chaos, timedAnswer, h.late, hbatches]

theorem Env.Replies.union (h : env.Replies kind schema rows)
    {query format : Str} {base : SubQuery} (hexternal : s.External refs)
    (hbase : unionBase query format refs = .ok base)
    (hkind : ∀ r ∈ refs, kind (sourceSubQuery base r)) {shared : Schema}
    (hshared : ∀ r ∈ refs, schema r.datasource (sourceSubQuery base r) =
      shared) :
    ∃ fed, (executeUnion env query format refs s).result = .ok fed ∧
      (∀ b ∈ fed.batches, b.schema = shared ++ [datasourceField]) ∧
      fed.batches.flatMap (·.rows) = refs.flatMap (fun r =>
        (rows r.datasource (sourceSubQuery base r)).map (tagRow r.datasource)) ∧
      fed.partialErrors = [] := by
  have hanswers := h.each hexternal hkind
  obtain ⟨-, hrefs⟩ :=
    taskResults_eq_sourceAnswers env base hexternal.registered
  have hsame : ∀ a ∈ sourceAnswers env s base refs, ∃ batches,
    a.2 = .ok batches ∧
      ∀ b ∈ batches, b.schema = shared := by
    intro a ha
    obtain ⟨batches, hok, hsame, -⟩ := hanswers a ha
    rw [hshared _ (hrefs ▸ mem_map_of_mem ha)] at hsame
    exact ⟨batches, hok, hsame⟩
  obtain ⟨fed, hfed, hfedSchema, hfedRows, herrors, -⟩ :=
    executeUnion_answered hbase hexternal.registered hsame
  refine ⟨fed, hfed, hfedSchema, ?_, herrors⟩
  rw [hfedRows]
  conv_rhs => rw [← hrefs, flatMap_map]
  apply flatMap_congr
  intro a ha
  obtain ⟨batches, hok, -, hrows⟩ := hanswers a ha
  rw [hok, ← hrows]
  rfl

/-! ## Sources that hold tables -/

def Env.Holds (env : Env V) (T : TableModel V) (tables : Tables V) : Prop :=
  env.Replies SubQuery.Plain (fun _ sq => T.fields sq) fun ds sq =>
    T.rows sq (tables ds sq.table)

def Env.ofTables (T : TableModel V) (tables : Tables V) : Env V :=
  { Env.quiet V with
    execute := fun _ ds sq => .ok [T.batch sq (tables ds sq.table)] }

omit [ArrowKernels V] [FloatOps] [SqlParser] in
theorem Env.holds_ofTables (T : TableModel V) (tables : Tables V) :
    (Env.ofTables T tables).Holds T tables where
  chaos _ _ := rfl
  late _ _ _ := rfl
  execute number ds sq _ := by
    refine ⟨_, rfl, ?_, by simp [TableModel.batch]⟩
    intro b hb
    cases mem_singleton.mp hb
    rfl

end Runs

end Fuse.Server
