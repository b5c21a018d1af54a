import Fuse.Server.Calls

/-!
# Rules for the whole endpoint

What a request that is not a query does to the state, and the rule that
reduces a property of every request to the requests that are queries.  No
statement adds a write to a transaction, so that a `COMMIT` has none to make.
-/

namespace Fuse.Server

open Foundation Fuse.Core Engine List
open Foundation.Traced (Spec SpecAt)

section Invariants

variable {V : Type}

def NoPending (s : AppState V) : Prop := ∀ t ∈ s.transactions, t.2 = []

abbrev CacheProperty (V : Type) :=
  Registry V → TtlCache Str QueryResponse → TtlCache Str CachedPlan → Prop

def Kept (J : CacheProperty V) (s : AppState V) : Prop :=
  NoPending s ∧ J s.exec.registry s.resultCache s.planCache

def KeptByReads (J : CacheProperty V) : Prop :=
  ∀ registry results plans now key, J registry results plans →
    J registry (results.get now key).2 plans

end Invariants

section Statements

variable {V : Type} [ArrowKernels V] [Unicode] [FloatOps] [SqlParser]
  {J : CacheProperty V} {G : Str → Prop}

def SourceGood (G : Str → Prop) (query : Str) : Prop :=
  ∀ src, firstSource query = .ok (some src) → G src.datasource

def StatementGood (G : Str → Prop) (s : AppState V) : Command → Prop
  | .createTable w | .insertInto w =>
    SourceGood G w.select ∧ G w.destination.datasource
  | .createMaterializedView _ query => SourceGood G query
  | .refreshMaterializedView name => ∀ view, s.views.lookup name = some view →
      SourceGood G view.query
  | .begin _ | .commit _ | .rollback _ | .createView _ _ | .select => True

abbrev Keeps {α : Type} (J : CacheProperty V) (G : Str → Prop)
    (m : Handler V α) (P : α → Prop) : Prop :=
  Spec (Kept J) (fun c => G c.datasource) m P

namespace Keeps

variable {α : Type} {P : α → Prop}

omit [ArrowKernels V] [Unicode] [FloatOps] [SqlParser] in
theorem runExec {m : Exec V α}
    (h : ∀ registry, CallsOnly (· = registry) G m P) :
    Keeps J G (Handler.runExec m) P := by
  intro s hs
  obtain ⟨htrace, hregistry, hpost⟩ := h s.exec.registry s.exec rfl
  refine ⟨htrace, ⟨hs.1, ?_⟩, hpost⟩
  change J (m s.exec).state.registry s.resultCache s.planCache
  rw [hregistry]
  exact hs.2

omit [ArrowKernels V] [Unicode] [FloatOps] [SqlParser] in
theorem liftFallible {x : Fallible α} :
    Keeps J G (Handler.liftFallible x) fun a => x = .ok a :=
  Spec.lift fun _ h => h

omit [ArrowKernels V] [Unicode] [FloatOps] [SqlParser] in
theorem setView {name : Str} {view : View V} :
    Keeps J G (setView name view) fun _ => True :=
  Spec.modifyState fun _ hs => hs

omit [ArrowKernels V] [Unicode] [FloatOps] [SqlParser] in
theorem removeTransaction {id : Str} :
    Keeps J G (removeTransaction id) fun _ => True :=
  Spec.modifyState fun _ hs =>
    ⟨fun t ht => hs.1 t (mem_of_mem_filter ht), hs.2⟩

end Keeps

variable {r : Request V} {s : AppState V}

omit [ArrowKernels V] [Unicode] [FloatOps] [SqlParser] in
theorem commitTransaction_keeps (hs : NoPending s) (id : Option Str) :
    Keeps J G (commitTransaction r s.transactions id) fun _ => True := by
  unfold commitTransaction
  split
  · exact Spec.pure trivial
  rename_i id _
  split
  · exact Spec.pure trivial
  rename_i writes hlookup
  have hnil : writes = [] := hs _ (mem_of_lookup hlookup)
  subst hnil
  refine Spec.bind Keeps.removeTransaction fun _ _ => ?_
  refine Spec.bind (Keeps.runExec fun _ =>
    Spec.mapM (Q := fun _ => True) (by simp)) fun _ _ => ?_
  exact Spec.pure trivial

variable {cfg : Config}

theorem perform_keeps {text : Str} {command : Command} (hs : NoPending s)
    (hstatement : command ≠ .select) (h : StatementGood G s command) :
    Keeps J G (perform cfg r s text command) fun _ => True := by
  cases command with
  | begin id =>
    change Keeps J G (beginTransaction s.transactions id) _
    unfold beginTransaction
    split
    · exact Spec.pure trivial
    refine Spec.bind (P := fun _ => True) ?_ fun _ _ => Spec.pure trivial
    refine Spec.modifyState fun s hs => ⟨fun t ht => ?_, hs.2⟩
    rcases mem_cons.mp ht with rfl | ht
    · rfl
    · exact hs.1 t (mem_of_mem_filter ht)
  | commit id => exact commitTransaction_keeps hs id
  | rollback id =>
    change Keeps J G (rollbackTransaction r s.transactions id) _
    unfold rollbackTransaction
    split
    · exact Spec.pure trivial
    · split
      · exact Spec.bind Keeps.removeTransaction fun _ _ => Spec.pure trivial
      · exact Spec.pure trivial
  | createTable w | insertInto w =>
    exact Keeps.runExec fun _ => writeSelect_calls r.env h.1 h.2
  | createMaterializedView name query =>
    refine Spec.bind Keeps.setView fun _ _ => ?_
    refine Spec.bind (Keeps.runExec fun _ => viewBatches_calls r.env h)
      fun _ _ => ?_
    exact Spec.bind Keeps.setView fun _ _ => Spec.pure trivial
  | refreshMaterializedView name =>
    change Keeps J G (refreshMaterializedView r.env s.views name) _
    unfold refreshMaterializedView
    split
    · exact Spec.pure trivial
    rename_i view hview
    refine Spec.bind (Keeps.runExec fun _ =>
      viewBatches_calls r.env (h view hview)) fun _ _ => ?_
    refine Spec.bind Keeps.setView fun _ _ => ?_
    split
    · exact Spec.pure trivial
    · exact Spec.pure trivial
  | createView name query =>
    exact Spec.bind Keeps.setView fun _ _ => Spec.pure trivial
  | select => exact absurd rfl hstatement

section Respond

variable {cfg : Config} {r : Request V} {clauses : PlanClauses}
  {ex : Execution V}

def WithinSize (cfg : Config) (r : Request V) (page : Page V) : Prop :=
  refuseSize cfg r (batchesToJson page.batches).2.length
    (r.env.resultBytes page.batches) = none

omit [Unicode] [FloatOps] [SqlParser] in
private theorem errorJson_eq (status : Nat) (message : Str) :
    ∃ shown, errorJson status message = .error status shown := by
  unfold errorJson
  split
  · exact ⟨_, rfl⟩
  · exact ⟨_, rfl⟩

omit [ArrowKernels V] [Unicode] [FloatOps] [SqlParser] in
theorem refuseSize_error {rows bytes : Nat} {reply : Reply}
    (h : refuseSize cfg r rows bytes = some reply) :
    ∃ status message, reply = .error status message := by
  unfold refuseSize at h
  split at h
  · cases h
    exact ⟨_, _, rfl⟩
  obtain ⟨config, -, h⟩ := Option.bind_eq_some_iff.mp h
  obtain ⟨message, -, rfl⟩ := Option.map_eq_some_iff.mp h
  obtain ⟨shown, hshown⟩ := errorJson_eq 429 message
  exact ⟨429, shown, hshown⟩

omit [SqlParser] in
theorem respond_result {response : QueryResponse}
    (h : respond cfg r clauses ex = .ok (.result response)) :
    ∃ page, pageOf cfg r clauses ex = .ok page ∧ WithinSize cfg r page ∧
      r.body.exports = false ∧ response = responseOf r ex page := by
  unfold respond at h
  cases hpage : pageOf cfg r clauses ex with
  | error e =>
    rw [hpage] at h
    cases h
  | ok page =>
    rw [hpage] at h
    refine ⟨page, rfl, ?_⟩
    unfold WithinSize
    simp only [bind, Except.bind] at h
    cases hsize : refuseSize cfg r (batchesToJson page.batches).2.length
        (r.env.resultBytes page.batches) with
    | some reply =>
      obtain ⟨status, message, rfl⟩ := refuseSize_error hsize
      simp only [hsize] at h
      cases h
    | none =>
      simp only [hsize] at h
      split at h
      · cases h
      · rename_i hexports
        cases h
        exact ⟨rfl, by simpa using hexports, rfl⟩

end Respond

def ClausesOf (cached : Option CachedPlan) (ex : Execution V)
    (clauses : PlanClauses) : Prop :=
  match cached with
  | some plan => clauses = plan.clauses
  | none => parseClauses ex.query = .ok clauses

structure KeptByWrites (J : CacheProperty V) (cfg : Config) (r : Request V)
    (key : Str) (cached : Option CachedPlan) (ex : Execution V) : Prop where
  plan : cached = none → ∀ clauses, parseClauses ex.query = .ok clauses →
    ∀ registry results plans, J registry results plans →
      J registry results (plans.insert r.env.now (normalizeQuery key)
        (planOf ex clauses))
  result : ∀ clauses, ClausesOf cached ex clauses →
    ∀ response, respond cfg r clauses ex = .ok (.result response) →
    ∀ registry results plans, J registry results plans →
      J registry (results.insert r.env.now key response) plans

omit [SqlParser] in
theorem finishSelect_keeps {key : Str} {cached : Option CachedPlan}
    {result : Except Reply (Execution V)}
    (h : ∀ ex, result = .ok ex → KeptByWrites J cfg r key cached ex) :
    Keeps J G (finishSelect cfg r key cached result) fun _ => True := by
  cases result with
  | error reply => exact Spec.pure trivial
  | ok ex =>
    have hwrites := h ex rfl
    refine Spec.bind (P := ClausesOf cached ex) ?_ fun clauses hclauses => ?_
    · unfold settleClauses
      split
      · exact Spec.pure rfl
      refine Spec.bind Keeps.liftFallible fun clauses hclauses => ?_
      refine Spec.bind (Spec.modifyState fun s hs =>
        ⟨hs.1, hwrites.plan rfl clauses hclauses _ _ _ hs.2⟩)
        fun _ _ => ?_
      exact Spec.pure hclauses
    · refine Spec.bind Keeps.liftFallible fun reply hreply => ?_
      refine Spec.bind (P := fun _ => True) ?_ fun _ _ => Spec.pure trivial
      unfold storeResult
      split
      · exact Spec.modifyState fun s hs =>
          ⟨hs.1, hwrites.result clauses hclauses _ hreply _ _ _ hs.2⟩
      · exact Spec.pure trivial

theorem handleSelect_keeps {plans : TtlCache Str CachedPlan} {text : Str}
    {P : Except Reply (Execution V) → Prop} (hs : NoPending s) (hrun : SpecAt
      (fun st => J st.registry s.resultCache (plans.get r.env.now
        (normalizeQuery (cacheKey r.format text))).2) (fun c => G c.datasource)
      (runSelect cfg r text ((plans.get r.env.now
        (normalizeQuery (cacheKey r.format text))).1.map (·.sources)))
      P s.exec) (hwrites : ∀ ex, P (.ok ex) → KeptByWrites J cfg r
      (cacheKey r.format text) (plans.get r.env.now
        (normalizeQuery (cacheKey r.format text))).1 ex) :
      SpecAt (Kept J) (fun c => G c.datasource)
      (handleSelect cfg r plans text) (fun _ => True) s := by
  obtain ⟨htrace, hstate, hpost⟩ := hrun
  have hexec : SpecAt (Kept J) (fun c => G c.datasource)
      (Handler.runExec (runSelect cfg r text ((plans.get r.env.now
        (normalizeQuery (cacheKey r.format text))).1.map (·.sources)))) P
      { s with planCache := (plans.get r.env.now
        (normalizeQuery (cacheKey r.format text))).2 } :=
    ⟨htrace, ⟨hs, hstate⟩, hpost⟩
  exact hexec.bind fun result hresult => finishSelect_keeps fun ex hex =>
    hwrites ex (hex ▸ hresult)

structure Performs (r : Request V) (s : AppState V) (text : Str)
    (command : Command) : Prop where
  resolved : resolveText s.prepared r.body = .ok (.query text)
  miss : (s.resultCache.get r.env.now (cacheKey r.format text)).1 = none
  classified : classify r.env.uuid text = .ok command

def plannedSources (r : Request V) (s : AppState V) (text : Str) :
    Option (List TableRef) :=
  (s.planCache.get r.env.now (normalizeQuery (cacheKey r.format text))).1.map
    (·.sources)

def AppState.afterRead (s : AppState V) (r : Request V) (text : Str) :
    AppState V :=
  { s.start with resultCache := (s.resultCache.get r.env.now
    (cacheKey r.format text)).2 }

structure Served (r : Request V) (s : AppState V) (text : Str)
    (response : QueryResponse) : Prop where
  resolved : resolveText s.prepared r.body = .ok (.query text)
  hit : (s.resultCache.get r.env.now (cacheKey r.format text)).1 = some response

section Equations

variable {cfg : Config} {r : Request V} {s : AppState V} {text : Str}

theorem serve_eq (cfg : Config) (r : Request V) (s : AppState V) :
    serve cfg r s = (Handler.liftFallible (resolveText s.prepared r.body) >>=
      answerOutcome cfg r s.start : Handler V Reply) s.start := rfl

theorem serve_of_resolved
    (h : resolveText s.prepared r.body = .ok (.query text)) :
    serve cfg r s = answerText cfg r s.start text s.start := by
  rw [serve_eq, Handler.liftFallible_ok h]
  rfl

theorem serve_of_served {response : QueryResponse}
    (h : Served r s text response) :
    serve cfg r s = ⟨.ok (.result { response with traceId := r.env.traceId }),
      s.afterRead r text, []⟩ := by
  rw [serve_of_resolved h.resolved]
  have hhit := h.hit
  unfold answerText AppState.afterRead
  change (s.start.resultCache.get _ _).1 = _ at hhit
  change _ = (⟨_, { s.start with resultCache :=
    (s.start.resultCache.get r.env.now (cacheKey r.format text)).2 }, _⟩ :
      Outcome Failure (AppState V) Call Reply)
  cases hget : s.start.resultCache.get r.env.now (cacheKey r.format text) with
  | mk found cache =>
    rw [hget] at hhit
    subst hhit
    rfl

theorem serve_of_miss (h : resolveText s.prepared r.body = .ok (.query text))
    (hmiss : (s.resultCache.get r.env.now (cacheKey r.format text)).1 = none) :
    serve cfg r s = (Handler.liftFallible (classify r.env.uuid text) >>=
      perform cfg r s.start text : Handler V Reply) (s.afterRead r text) := by
  rw [serve_of_resolved h]
  unfold answerText AppState.afterRead
  change (s.start.resultCache.get _ _).1 = _ at hmiss
  change _ = (_ >>= _ : Handler V Reply) { s.start with resultCache :=
    (s.start.resultCache.get r.env.now (cacheKey r.format text)).2 }
  cases hget : s.start.resultCache.get r.env.now (cacheKey r.format text) with
  | mk found cache =>
    rw [hget] at hmiss
    subst hmiss
    rfl

theorem serve_of_performs {command : Command} (h : Performs r s text command) :
    serve cfg r s = perform cfg r s.start text command
    (s.afterRead r text) := by
  rw [serve_of_miss h.resolved h.miss, Handler.liftFallible_ok h.classified]

end Equations

theorem serve_cases (cfg : Config) (r : Request V) (s : AppState V) :
    (∃ text response, Served r s text response) ∨
    (∃ text command, Performs r s text command) ∨
      ((serve cfg r s).trace = [] ∧ ∃ text prepared,
        (serve cfg r s).state = s.start ∨
        (serve cfg r s).state = { s.start with prepared } ∨
        (serve cfg r s).state = s.afterRead r text) := by
  cases houtcome : resolveText s.prepared r.body with
  | error e =>
    refine .inr (.inr ?_)
    rw [serve_eq, Handler.liftFallible_error houtcome]
    exact ⟨rfl, [], [], .inl rfl⟩
  | ok outcome =>
    cases outcome with
    | query text =>
      cases hhit : (s.resultCache.get r.env.now (cacheKey r.format text)).1 with
      | some response => exact .inl ⟨text, response, houtcome, hhit⟩
      | none =>
        refine .inr ?_
        cases hclassified : classify r.env.uuid text with
        | ok command =>
          exact .inl ⟨text, command, houtcome, hhit, hclassified⟩
        | error e =>
          refine .inr ?_
          rw [serve_of_miss houtcome hhit,  Handler.liftFallible_error
            hclassified]
          exact ⟨rfl, text, [], .inr (.inr rfl)⟩
    | prepare name statement =>
      refine .inr (.inr ?_)
      rw [serve_eq, Handler.liftFallible_ok houtcome]
      exact ⟨rfl, [], _, .inr (.inl rfl)⟩
    | refused reply =>
      refine .inr (.inr ?_)
      rw [serve_eq, Handler.liftFallible_ok houtcome]
      exact ⟨rfl, [], [], .inl rfl⟩

theorem serve_keeps (hreads : KeptByReads J) (hs : Kept J s)
    (hstatement : ∀ text command, Performs r s text command →
      StatementGood G s command) (hselect : ∀ text, Performs r s text .select →
      Kept J (s.afterRead r text) →
      SpecAt (Kept J) (fun c => G c.datasource)
        (handleSelect cfg r s.planCache text) (fun _ => True)
        (s.afterRead r text)) : (∀ c ∈ (serve cfg r s).trace, G c.datasource) ∧
      Kept J (stepState cfg r s) := by
  have hread : ∀ text, Kept J (s.afterRead r text) :=
    fun text => ⟨hs.1, hreads _ _ _ _ _ hs.2⟩
  unfold stepState
  rcases serve_cases cfg r s with ⟨text, response, h⟩ | ⟨text, command, h⟩ |
    ⟨htrace, text, prepared, hstate⟩
  · rw [serve_of_served h]
    exact ⟨by simp, hread text⟩
  · rw [serve_of_performs h]
    by_cases hcommand : command = .select
    · subst hcommand
      obtain ⟨htrace, hstate, -⟩ := hselect text h (hread text)
      exact ⟨htrace, hstate⟩
    · obtain ⟨htrace, hstate, -⟩ := perform_keeps (s := s.start) hs.1
        hcommand (hstatement text command h) _ (hread text)
      exact ⟨htrace, hstate⟩
  · rw [htrace]
    refine ⟨by simp, ?_⟩
    rcases hstate with hstate | hstate | hstate
    · rw [hstate]
      exact hs
    · rw [hstate]
      exact hs
    · rw [hstate]
      exact hread text

theorem stepState_noPending (cfg : Config) (r : Request V) (hs : NoPending s) :
    NoPending (stepState cfg r s) := by
  have hkept : Kept (fun _ _ _ => True) (stepState cfg r s) := by
    refine (serve_keeps (J := fun _ _ _ => True) (G := fun _ => True)
      (fun _ _ _ _ _ h => h) ⟨hs, trivial⟩ ?_ ?_).2
    · intro text command _
      cases command <;> simp [StatementGood, SourceGood]
    · intro text _ hread
      exact handleSelect_keeps (J := fun _ _ _ => True) (G := fun _ => True)
        (P := fun _ => True)
        hread.1 ⟨fun _ _ => trivial, trivial, fun _ _ => trivial⟩ fun _ _ =>
            ⟨fun _ _ _ _ _ _ h =>
        h, fun _ _ _ _ _ _ _ h => h⟩
  exact hkept.1

end Statements

end Fuse.Server
