import Fuse.Server.ResultCache

/-!
# Degraded answers

A fan-out of which some sources fail and others answer gives a result with
partial errors, and the result cache keeps it like any other.  No such
response is kept in a run in which, at every fan-out, the sources fail
together or not at all.
-/

namespace Fuse.Server

open Foundation Fuse.Core Engine List
open Foundation.Traced (Spec SpecAt)

section Sources

variable {V : Type} (env : Env V)

/-! ## Sources that answer, and sources that fail -/

def Answers (ds : Str) : Prop :=
  ∀ number sq, env.chaos number ds = none ∧ env.late number ds sq = false ∧
    ∃ batches, env.execute number ds sq = .ok batches

def Fails (registry : Registry V) (ds : Str) : Prop :=
  registry.get ds = some .external ∧ ∀ number sq,
    env.chaos number ds ≠ none ∨ env.late number ds sq = true ∨
      ∃ e, env.execute number ds sq = .error e

def AllOrNone (registry : Registry V) (refs : List TableRef) : Prop :=
  (∀ ref ∈ refs, Answers env ref.datasource) ∨ ∀ ref ∈ refs,
    Fails env registry ref.datasource

def Extends (registry registry' : Registry V) : Prop :=
  ∀ ds connector, registry.get ds = some connector →
    registry'.get ds = some connector

theorem Extends.keptByRegister (registry : Registry V) :
    KeptByRegister (Extends registry) := by
  intro registry' id connector h ds found hfound
  have hget := h ds found hfound
  unfold Registry.register
  split
  · exact hget
  · unfold Registry.get at hget ⊢
    rw [lookup_append, hget]
    rfl

end Sources

section Fanout

variable {V : Type} [ArrowKernels V] [Unicode] [FloatOps] [SqlParser]
  {env : Env V}

variable {task : UnionTask V} {registry : Registry V} {refs : List TableRef}

omit [ArrowKernels V] [Unicode] [FloatOps] [SqlParser] in
theorem taskResult_of_answers (number : Nat) (h : Answers env task.datasource) :
    ∃ batches, (taskResult env number task).2 = .ok batches := by
  obtain ⟨hchaos, hlate, batches, hexecute⟩ := h number task.subQuery
  cases hconnector : task.connector with
  | external =>
    refine ⟨batches, ?_⟩
    simp [taskResult, timedAnswer, hchaos, hconnector, hlate, hexecute]
  | memory stored =>
    refine ⟨stored, ?_⟩
    simp [taskResult, timedAnswer, hchaos, hconnector]

omit [ArrowKernels V] [Unicode] [FloatOps] [SqlParser] in
theorem taskResult_of_fails (number : Nat)
    (hconnector : task.connector = .external)
    (h : Fails env registry task.datasource) :
    ∃ e, (taskResult env number task).2 = .error e := by
  cases hchaos : env.chaos number task.datasource with
  | some err => exact ⟨.queryFailed err, by simp only [taskResult, hchaos]⟩
  | none =>
    rcases h.2 number task.subQuery with hfault | hlate | ⟨e, hexecute⟩
    · exact absurd hchaos hfault
    · refine ⟨.queryFailed (timedOutText task.datasource), ?_⟩
      simp [taskResult, timedAnswer, hchaos, hconnector, hlate]
    · cases hlate : env.late number task.datasource task.subQuery with
      | true =>
        refine ⟨.queryFailed (timedOutText task.datasource), ?_⟩
        simp [taskResult, timedAnswer, hchaos, hconnector, hlate]
      | false =>
        refine ⟨e, ?_⟩
        simp [taskResult, timedAnswer, hchaos, hconnector, hlate, hexecute]

omit [ArrowKernels V] [Unicode] [FloatOps] [SqlParser] in
theorem mem_unionTasks {base : SubQuery}
    (h : task ∈ unionTasks registry base refs) :
    (∃ ref ∈ refs, task.datasource = ref.datasource) ∧
      registry.get task.datasource = some task.connector := by
  obtain ⟨⟨ref, sq⟩, hmem, heq⟩ := mem_filterMap.mp h
  obtain ⟨connector, hconnector, rfl⟩ := Option.map_eq_some_iff.mp heq
  exact ⟨⟨ref, (of_mem_zip hmem).1, rfl⟩, hconnector⟩

omit [Unicode] [FloatOps] [SqlParser] in
theorem FanoutOf.no_partialErrors {fed : FederatedResult V}
    (huniform : AllOrNone env registry refs)
    (h : FanoutOf env (Extends registry) refs fed) :
    fed.partialErrors = [] := by
  obtain ⟨registry', base, results, hextends, hresults, hcollect⟩ := h
  have herrors : fed.partialErrors = results.filterMap taskError ∧
      (results.filterMap taskBatches = [] →
        results.filterMap taskError = []) := by
    unfold collectUnion at hcollect
    dsimp only at hcollect
    split at hcollect
    · cases hcollect
    rename_i hsome
    obtain ⟨batches, -, hfed⟩ := Fallible.bind_eq_ok.mp hcollect
    cases hfed
    exact ⟨rfl, fun hnone => by simpa [hnone] using hsome⟩
  rw [herrors.1]
  rcases huniform with hanswer | hfail
  · refine filterMap_eq_nil_iff.mpr fun result hresult => ?_
    obtain ⟨task, htask, number, rfl⟩ := hresults result hresult
    obtain ⟨⟨ref, href, hds⟩, -⟩ := mem_unionTasks htask
    obtain ⟨batches, hok⟩ :=
      taskResult_of_answers number (hds ▸ hanswer ref href)
    simp [taskError, hok]
  · refine herrors.2 (filterMap_eq_nil_iff.mpr fun result hresult => ?_)
    obtain ⟨task, htask, number, rfl⟩ := hresults result hresult
    obtain ⟨⟨ref, href, hds⟩, hget⟩ := mem_unionTasks htask
    have hfails : Fails env registry task.datasource := hds ▸ hfail ref href
    have hexternal : task.connector = .external := by
      have := hextends _ _ hfails.1
      rw [hget] at this
      exact Option.some.inj this
    obtain ⟨e, herror⟩ := taskResult_of_fails number hexternal hfails
    simp [taskBatches, herror]

end Fanout

section Runs

variable {V : Type} [ArrowKernels V] [Unicode] [FloatOps] [SqlParser]
  {cfg : Config} {r : Request V} {s : AppState V}

/-! ## Runs -/

/-- At every fan-out the query can come to, the sources fail together or not
at all.  A result that is exported is not kept and may be degraded. -/
def Steady (s : AppState V) (r : Request V) : Prop :=
  ∀ text, Performs r s text .select → r.body.exports = false →
    ∀ refs, sourcesOf r.format text (plannedSources r s text) = .ok (.ok refs) →
    ∀ plan, parseCtes text = .ok plan →
    ∀ query refs', mainQuery plan text refs = .ok (query, refs') →
    ∀ settled, Settled r.format query refs' settled →
    RunsAsFanout settled.1 r.format settled.2 →
      AllOrNone r.env s.exec.registry settled.2

def Undegraded : CacheProperty V := fun _ results _ =>
  ∀ e ∈ results.entries, e.value.partialErrors = []

theorem runSelect_undegraded (cfg : Config) {text : Str} (h : Steady s r)
    (hperforms : Performs r s text .select) :
    CallsOnly (Extends s.exec.registry) (fun _ => True)
      (runSelect cfg r text (plannedSources r s text))
      fun result => ∀ ex, result = .ok ex → r.body.exports = false →
          ex.fed.partialErrors = [] := by
  refine runSelect_calls (fun _ _ => Extends.keptByRegister _)
    (fun _ _ hex => by cases hex) (fun _ _ _ _ _ _ _ _ => trivial) ?_
  intro refs hrefs plan hplan query refs' hquery _
  refine Spec.weaken (runSettled_calls (I := Extends s.exec.registry)
    (G := fun _ => True) (fun _ _ _ _ => trivial) fun _ _ _ _ => trivial) ?_
  intro result hresult ex hex hexports
  obtain ⟨hsettled, hwhole | ⟨hfanout, hfed⟩⟩ := hresult ex hex
  · exact hwhole
  · exact hfed.no_partialErrors (h text hperforms hexports refs hrefs plan
      hplan query refs' hquery _ hsettled hfanout)

theorem stepState_undegraded (cfg : Config) (hs : Kept Undegraded s)
    (h : Steady s r) :
    Kept Undegraded (stepState cfg r s) := by
  refine (serve_keeps (G := fun _ => True) ?_ hs ?_ ?_).2
  · exact fun _ _ _ _ _ hinv e he => hinv e (TtlCache.get_subset _ _ he)
  · rintro text (_ | _ | _ | _ | _ | _ | _ | _) -
    all_goals simp [StatementGood, SourceGood]
  · intro text hperforms hread
    refine handleSelect_keeps (G := fun _ => True) hread.1
      (P := fun result => ∀ ex,
      result = .ok ex → r.body.exports = false →
      ex.fed.partialErrors = []) ?_ ?_
    · obtain ⟨htrace, -, hpost⟩ := runSelect_undegraded cfg h hperforms
        (s.afterRead r text).exec fun _ _ hget => hget
      exact ⟨htrace, hread.2, hpost⟩
    · intro ex hex
      refine ⟨fun _ _ _ _ _ _ hinv => hinv, ?_⟩
      intro clauses _ response hresponse _ results _ hinv e he
      obtain ⟨page, -, -, hexports, rfl⟩ := respond_result hresponse
      rcases TtlCache.mem_insert he with rfl | he
      · exact hex ex rfl hexports
      · exact hinv e he

/--
In every steady run no response with partial errors is stored in the result
cache or served from it.
-/
theorem degraded_never_cached {requests : List (Request V)} (hs : Cold s)
    (h : EveryStep (stepState cfg) Steady s requests) :
    EveryStep (stepState cfg) (fun s r =>
      (∀ e ∈ (stepState cfg r s).resultCache.entries,
        e.value.partialErrors = []) ∧
      ∀ text response, Served r s text response →
      response.partialErrors = []) s requests := by
  refine h.of_inv (I := Kept Undegraded) ?_ ⟨?_, ?_⟩
  · intro s r hinv hr
    have hnext := stepState_undegraded cfg hinv hr
    refine ⟨⟨hnext.2, fun text response hserved => ?_⟩, hnext⟩
    obtain ⟨e, he, -, rfl⟩ := TtlCache.mem_of_get hserved.hit
    exact hinv.2 e he
  · intro t ht
    rw [hs.transactions] at ht
    cases ht
  · intro e he
    rw [hs.results] at he
    cases he

end Runs

section Example

attribute [local instance] asciiUnicode integersOnly textCells

def bothText : Str := "SELECT n FROM a.t UNION ALL SELECT n FROM b.t"

def bothQuery : Query :=
  .mk (.setOperation (.select (numbersOf "a.t")) (.select (numbersOf "b.t")))
    none none

def askBoth (env : Env Str) (now : Nat) : Request Str where
  env := { env with now }
  body := { query := bothText }

/-- The source `b` answers too late. -/
def lateB : Env Str := { twoTables with late := fun _ ds _ => ds = "b" }

/-- One source is late once, and its rows are missing while it is back. -/
theorem degraded_answer_is_replayed :
    letI := tableParser [(bothText, bothQuery)]
    let s := stepState {} (askBoth lateB 0) freshServer
    (s.resultCache.entries.map fun e =>
        e.value.partialErrors.map (·.datasource)) = [["b".toList]] ∧
      shown (serve {} (askBoth twoTables 1) s) =
        some ⟨["n", "_datasource"], [[some "2", some "a"]]⟩ ∧
      shown (serve {} (askBoth twoTables 1) s.withoutResults) =
        some ⟨["n", "_datasource"],
        [[some "2", some "a"], [some "3", some "b"]]⟩ := by decide +kernel

private theorem askBoth_steady [SqlParser] (now : Nat) (s : AppState Str) :
    Steady s (askBoth twoTables now) := by
  intro text _ _ refs _ plan _ query refs' _ settled _ _
  exact .inl fun ref _ number sq => ⟨rfl, rfl, _, rfl⟩

theorem healthy_answers_are_cached :
    letI := tableParser [(bothText, bothQuery)]
    EveryStep (stepState {}) (fun s r =>
        (∀ e ∈ (stepState {} r s).resultCache.entries,
          e.value.partialErrors = []) ∧
        ∀ text response, Served r s text response →
        response.partialErrors = []) freshServer
        [askBoth twoTables 0, askBoth twoTables 1] ∧
      ((stepState {} (askBoth twoTables 0) freshServer).resultCache.get 1
        (cacheKey "sql" bothText)).1.isSome := by
  let := tableParser [(bothText, bothQuery)]
  exact ⟨degraded_never_cached ⟨rfl, rfl, rfl⟩
    ⟨askBoth_steady 0 _, askBoth_steady 1 _, trivial⟩, by decide +kernel⟩

end Example

end Fuse.Server
