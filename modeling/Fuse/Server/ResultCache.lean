import Fuse.Server.Replay
import Fuse.Server.TenantIsolation

/-!
# The result cache

A response is stored under the format and the text of its request alone.  The
invariant of this module says that every cached response, and every cached
plan, is what one question gives, where `owner` names the question that
belongs to a normalised key.  It holds in every run whose requests each ask
the question that owns their key; such a run cannot tell the cache from an
empty one.
-/

namespace Fuse.Server

open Foundation Fuse.Core Engine Traced
open Foundation.Traced (Spec SpecAt)

section Views

variable {V : Type} [ArrowKernels V]

structure QueryResponse.OfPage (response : QueryResponse) (page : Page V) :
    Prop where
  table : (response.columns, response.rows) = batchesToJson page.batches
  nextCursor : response.nextCursor = page.nextCursor

def Reply.Shows (response : QueryResponse) : Reply → Prop
  | .result fresh => fresh.columns = response.columns ∧
      fresh.rows = response.rows ∧ fresh.nextCursor = response.nextCursor
  | .exported _ columns rows =>
    columns = response.columns ∧ rows = response.rows
  | _ => False

def AppState.withoutResults (s : AppState V) : AppState V :=
  { s with resultCache := { s.resultCache with entries := [] } }

end Views

section Respond

variable {V : Type} [ArrowKernels V] [Unicode] [FloatOps] [SqlParser]
  {cfg : Config} {r : Request V} {clauses : PlanClauses} {ex : Execution V}

omit [SqlParser] in
theorem respond_eq {page : Page V} (h : pageOf cfg r clauses ex = .ok page)
    (hsize : WithinSize cfg r page) : ∃ reply,
    respond cfg r clauses ex = .ok reply ∧
      ∀ response : QueryResponse, response.OfPage page →
      reply.Shows response := by
  unfold WithinSize at hsize
  unfold respond
  rw [h]
  simp only [bind, Except.bind, hsize]
  split
  · refine ⟨_, rfl, fun response hof => ?_⟩
    have := hof.table
    simp only [Prod.ext_iff] at this
    exact ⟨this.1.symm, this.2.symm⟩
  · refine ⟨_, rfl, fun response hof => ?_⟩
    have := hof.table
    simp only [Prod.ext_iff] at this
    exact ⟨this.1.symm, this.2.symm, hof.nextCursor.symm⟩

omit [Unicode] [FloatOps] [SqlParser] in
theorem responseOf_ofPage (page : Page V) :
    (responseOf r ex page).OfPage page := ⟨rfl, rfl⟩

end Respond

section Invariant

variable {V : Type} [ArrowKernels V] [Unicode] [FloatOps] [SqlParser]
  (cfg : Config) (owner : Str → Question V) (registry : Registry V)

def freshRun (q : Question V) : Fallible (Except Reply (Execution V)) :=
  (runSelect cfg q.request q.text none ⟨registry, 0⟩).result

structure Gives (q : Question V) (ex : Execution V) (clauses : PlanClauses) :
    Prop where
  run : freshRun cfg registry q = .ok (.ok ex)
  clauses : parseClauses ex.query = .ok clauses

def PlanFits (e : CacheEntry Str CachedPlan) : Prop :=
  ∃ ex clauses, Gives cfg registry (owner e.key) ex clauses ∧
    e.value = planOf ex clauses

structure ResultFits (e : CacheEntry Str QueryResponse) : Prop where
  select : ∃ uuid, classify uuid (owner (normalizeQuery e.key)).text =
    .ok .select
  gives : ∃ ex clauses page, Gives cfg registry
    (owner (normalizeQuery e.key)) ex clauses ∧
      pageOf cfg (owner (normalizeQuery e.key)).request clauses ex = .ok page ∧
      WithinSize cfg (owner (normalizeQuery e.key)).request page ∧
      e.value.OfPage page

def CachesFit : CacheProperty V := fun registry' results plans =>
  registry' = registry ∧
    (∀ e ∈ results.entries, ResultFits cfg owner registry e) ∧
    ∀ e ∈ plans.entries, PlanFits cfg owner registry e

/-- What a query must be like: it asks the question that owns its key, has no
`WITH`, and its sub-selects bring in no source it does not name itself. -/
structure Repeatable (r : Request V) (text : Str) : Prop where
  asks : AsksAgain (owner (normalizeQuery (cacheKey r.format text))) r text
  plain : parseCtes text = .ok none
  settled : ∀ refs, parseSources r.format text = .ok refs →
    ∀ settled, Settled r.format text refs settled →
      ∀ ref ∈ settled.2, ref.datasource ∈ refs.map (·.datasource)

structure Replayable (r : Request V) (text : Str) :
    Prop extends Repeatable owner r text where
  caller :
    SameCaller (owner (normalizeQuery (cacheKey r.format text))).request r

def ForQueries (P : Str → Prop) (s : AppState V) (r : Request V) : Prop :=
  ∀ text, (Performs r s text .select ∨ ∃ response, Served r s text response) →
    P text

abbrev RepeatsOnly (s : AppState V) (r : Request V) : Prop :=
  ForQueries (Replayable owner r) s r

variable {cfg owner registry}

omit [ArrowKernels V] [FloatOps] [SqlParser] in
theorem Replayable.agrees {r : Request V} {text : Str}
    (h : Replayable owner r text) :
    Agrees (owner (normalizeQuery (cacheKey r.format text))) r text :=
  { h.asks, h.caller with }

theorem CachesFit.keptByReads : KeptByReads (CachesFit cfg owner registry) :=
  fun _ _ _ _ _ h =>
    ⟨h.1, fun e he => h.2.1 e (TtlCache.get_subset _ _ he), h.2.2⟩

variable {registry' : Registry V} {results : TtlCache Str QueryResponse}
  {plans : TtlCache Str CachedPlan} {ex : Execution V}

variable {key : Str} {cached : Option CachedPlan}

theorem CachesFit.plan
    (h : CachesFit cfg owner registry registry' results plans) {now : Nat}
    {plan : CachedPlan} (hget : (plans.get now key).1 = some plan) :
    ∃ ex clauses, Gives cfg registry (owner key) ex clauses ∧
    plan = planOf ex clauses := by
  obtain ⟨e, he, hkey, hvalue⟩ := TtlCache.mem_of_get hget
  obtain ⟨ex, clauses, hgives, hplan⟩ := h.2.2 e he
  rw [hkey] at hgives
  exact ⟨ex, clauses, hgives, hvalue ▸ hplan⟩

theorem runSelect_fresh
    (h : CachesFit cfg owner registry registry' results plans) {r : Request V}
    {text : Str} (hr : Replayable owner r text) (now : Nat) :
    (runSelect cfg r text ((plans.get now
        (normalizeQuery (cacheKey r.format text))).1.map (·.sources))
      ⟨registry, 0⟩).result = freshRun cfg registry
      (owner (normalizeQuery (cacheKey r.format text))) := by
  unfold freshRun
  rw [← hr.agrees.runSelect_eq hr.plain]
  cases hget : (plans.get now (normalizeQuery (cacheKey r.format text))).1 with
  | none => rfl
  | some plan =>
    obtain ⟨ex, clauses, hgives, rfl⟩ := h.plan hget
    have hrun := hgives.run
    unfold freshRun at hrun
    rw [← hr.agrees.runSelect_eq hr.plain] at hrun
    rw [hrun]
    exact runSelect_planned hr.plain hr.settled hrun

theorem Gives.unique {q : Question V} {ex ex' : Execution V}
    {clauses clauses' : PlanClauses} (h : Gives cfg registry q ex clauses)
    (h' : Gives cfg registry q ex' clauses') :
    ex = ex' ∧ clauses = clauses' := by
  have hrun := h.run.symm.trans h'.run
  cases hrun
  have hclauses := h.clauses.symm.trans h'.clauses
  cases hclauses
  exact ⟨rfl, rfl⟩

theorem CachesFit.clauses
    (h : CachesFit cfg owner registry registry' results plans) {now : Nat}
    {clauses : PlanClauses} (hrun : freshRun cfg registry (owner key) =
      .ok (.ok ex))
    (hclauses : ClausesOf (plans.get now key).1 ex clauses) :
    Gives cfg registry (owner key) ex clauses := by
  unfold ClausesOf at hclauses
  split at hclauses
  · rename_i plan hget
    obtain ⟨ex', clauses', hgives, rfl⟩ := h.plan hget
    obtain rfl : ex' = ex := by
      have := hgives.run.symm.trans hrun
      cases this
      rfl
    rw [hclauses]
    exact hgives
  · exact ⟨hrun, hclauses⟩

variable {r : Request V} {s : AppState V} {text : Str}

theorem CachesFit.keptByWrites
    (h : CachesFit cfg owner registry registry' results plans)
    (hr : Replayable owner r text)
    (hselect : classify r.env.uuid text = .ok .select)
    (hrun : freshRun cfg registry
      (owner (normalizeQuery (cacheKey r.format text))) = .ok (.ok ex)) :
    KeptByWrites (CachesFit cfg owner registry) cfg r (cacheKey r.format text)
      (plans.get r.env.now
        (normalizeQuery (cacheKey r.format text))).1 ex := by
  refine ⟨fun _ clauses hclauses registry' results' plans' hfit => ?_,
    fun clauses hclauses response hresponse registry' results' plans' hfit =>
      ?_⟩
  · refine ⟨hfit.1, hfit.2.1, fun e he => ?_⟩
    rcases TtlCache.mem_insert he with rfl | he
    · exact ⟨ex, clauses, ⟨hrun, hclauses⟩, rfl⟩
    · exact hfit.2.2 e he
  · refine ⟨hfit.1, fun e he => ?_, hfit.2.2⟩
    rcases TtlCache.mem_insert he with rfl | he
    · obtain ⟨page, hpage, hsize, -, rfl⟩ := respond_result hresponse
      refine ⟨⟨r.env.uuid, hr.agrees.text ▸ hselect⟩, ex, clauses, page,
        h.clauses hrun hclauses, ?_, ?_, responseOf_ofPage page⟩
      · rw [← hr.agrees.pageOf_eq]
        exact hpage
      · unfold WithinSize at hsize ⊢
        rw [← hr.agrees.refuseSize_eq, ← hr.agrees.resultBytes_eq]
        exact hsize
    · exact hfit.2.1 e he

theorem stepState_cachesFit (hs : Kept (CachesFit cfg owner registry) s)
    (h : RepeatsOnly owner s r) :
    Kept (CachesFit cfg owner registry) (stepState cfg r s) := by
  refine (serve_keeps (G := fun _ => True) CachesFit.keptByReads hs ?_ ?_).2
  · rintro text (_ | _ | _ | _ | _ | _ | _ | _) -
    all_goals simp [StatementGood, SourceGood]
  · intro text hperforms hread
    have hr := h text (.inl hperforms)
    have hfit := hs.2
    refine handleSelect_keeps (G := fun _ => True) hread.1 (P := fun result =>
      freshRun cfg registry (owner (normalizeQuery (cacheKey r.format text))) =
        .ok result)
      ?_ ?_
    · have hstart : (s.afterRead r text).exec = ⟨registry, 0⟩ := by
        rw [← hfit.1]
        rfl
      have hcalls : CallsOnly (· = registry) (fun _ => True)
          (runSelect cfg r text ((s.planCache.get r.env.now
            (normalizeQuery (cacheKey r.format text))).1.map (·.sources)))
          fun _ => True := runSelect_plain_calls (fun _ => trivial) hr.plain
      obtain ⟨htrace, hstate, -⟩ := hcalls ⟨registry, 0⟩ rfl
      rw [hstart]
      refine ⟨htrace, ?_, fun result hresult => ?_⟩
      · refine ⟨hstate, hread.2.2.1, fun e he => ?_⟩
        exact hfit.2.2 e (TtlCache.get_subset _ _ he)
      · rw [← runSelect_fresh hfit hr r.env.now]
        exact hresult
    · exact fun ex hex => hfit.keptByWrites hr hperforms.classified hex

omit [FloatOps] [SqlParser] in
private theorem parseBegin_cases (text uuid uuid' : Str) :
    parseBegin uuid text = .ok (some uuid) ∨
    parseBegin uuid text = parseBegin uuid' text := by
  unfold parseBegin
  dsimp only
  split
  · exact .inl rfl
  · exact .inr rfl

omit [FloatOps] [SqlParser] in
theorem classify_select {uuid : Str} (h : classify uuid text = .ok .select)
    (uuid' : Str) : classify uuid' text = .ok .select := by
  unfold classify at h ⊢
  rcases parseBegin_cases text uuid uuid' with hbegin | hbegin
  · rw [hbegin] at h
    by_cases hword : isWord "begin" (toLowercase (Str.trim text)) = true
    · simp only [hword, if_true] at h
      cases h
    · simp only [hword] at h ⊢
      exact h
  · rw [← hbegin]
    exact h

omit [ArrowKernels V] [FloatOps] [SqlParser] in
theorem settleClauses_result {clauses : PlanClauses}
    (h : ClausesOf cached ex clauses)
    (s : AppState V) : (settleClauses r key cached ex s).result =
      .ok clauses := by
  unfold settleClauses
  cases cached with
  | some plan => exact congrArg Except.ok (Eq.symm h)
  | none => exact bind_result_iff.mpr ⟨clauses, h, rfl⟩

omit [ArrowKernels V] [Unicode] [FloatOps] [SqlParser] in
theorem storeResult_result (key : Str) (reply : Reply) (s : AppState V) :
    (storeResult r key reply s).result = .ok () := by cases reply <;> rfl

omit [SqlParser] in
theorem finishSelect_result {clauses : PlanClauses} {reply : Reply}
    (hclauses : ClausesOf cached ex clauses)
    (hreply : respond cfg r clauses ex = .ok reply)
    (s : AppState V) : (finishSelect cfg r key cached (.ok ex) s).result =
      .ok reply := by
  refine bind_result_iff.mpr ⟨clauses, settleClauses_result hclauses s, ?_⟩
  refine bind_result_iff.mpr ⟨reply, hreply, ?_⟩
  exact bind_result_iff.mpr ⟨(), storeResult_result key reply _, rfl⟩

theorem handleSelect_result
    (hfit : CachesFit cfg owner registry registry' results plans)
    (hr : Replayable owner r text) {clauses : PlanClauses} {reply : Reply}
    (hgives : Gives cfg registry
      (owner (normalizeQuery (cacheKey r.format text))) ex clauses)
    (hreply : respond cfg r clauses ex = .ok reply)
    (hstart : s.exec = ⟨registry, 0⟩) :
    (handleSelect cfg r plans text s).result = .ok reply := by
  change ((Handler.runExec (runSelect cfg r text ((plans.get r.env.now
      (normalizeQuery (cacheKey r.format text))).1.map (·.sources))) >>=
    finishSelect cfg r (cacheKey r.format text) (plans.get r.env.now
      (normalizeQuery (cacheKey r.format text))).1 : Handler V Reply)
    { s with planCache := (plans.get r.env.now
      (normalizeQuery (cacheKey r.format text))).2 }).result = _
  refine bind_result_iff.mpr ⟨.ok ex, ?_, ?_⟩
  · change (runSelect cfg r text _ s.exec).result = _
    rw [hstart, runSelect_fresh hfit hr]
    exact hgives.run
  · refine finishSelect_result ?_ hreply _
    unfold ClausesOf
    split
    · rename_i plan hget
      obtain ⟨ex', clauses', hgives', rfl⟩ := hfit.plan hget
      exact (hgives.unique hgives').2
    · exact hgives.clauses

theorem served_is_fresh (hs : Kept (CachesFit cfg owner registry) s)
    (h : RepeatsOnly owner s r)
    {response : QueryResponse} (hserved : Served r s text response) :
    ∃ fresh, (serve cfg r s.withoutResults).result = .ok fresh ∧
    fresh.Shows response := by
  have hr := h text (.inr ⟨response, hserved⟩)
  have hfit := hs.2
  obtain ⟨e, he, hkey, rfl⟩ := TtlCache.mem_of_get hserved.hit
  obtain ⟨⟨uuid, hselect⟩, ex, clauses, page, hgives, hpage, hsize, hof⟩ :=
    hfit.2.1 e he
  rw [hkey] at hselect hgives hpage hsize
  rw [← hr.agrees.text] at hselect
  rw [← hr.agrees.pageOf_eq] at hpage
  have hsize' : WithinSize cfg r page := by
    unfold WithinSize at hsize ⊢
    rw [hr.agrees.refuseSize_eq, hr.agrees.resultBytes_eq]
    exact hsize
  obtain ⟨fresh, hfresh, hshows⟩ := respond_eq hpage hsize'
  have hperforms : Performs r s.withoutResults text .select :=
    ⟨hserved.resolved, rfl, classify_select hselect r.env.uuid⟩
  refine ⟨fresh, ?_, hshows _ hof⟩
  rw [serve_of_performs hperforms]
  refine handleSelect_result hfit hr hgives hfresh ?_
  rw [← hfit.1]
  rfl

end Invariant

section Runs

variable {V : Type} [ArrowKernels V] [Unicode] [FloatOps] [SqlParser]
  {cfg : Config}
  {owner : Str → Question V} {requests : List (Request V)} {s : AppState V}

structure Cold (s : AppState V) : Prop where
  results : s.resultCache.entries = []
  plans : s.planCache.entries = []
  transactions : s.transactions = []

theorem Cold.kept (h : Cold s) :
    Kept (CachesFit cfg owner s.exec.registry) s := by
  refine ⟨fun t ht => ?_, rfl, fun e he => ?_, fun e he => ?_⟩
  · rw [h.transactions] at ht
    cases ht
  · rw [h.results] at he
    cases he
  · rw [h.plans] at he
    cases he

def Reply.table : Reply → Option (List Str × List (List (Option Str)))
  | .result response => some (response.columns, response.rows)
  | .exported _ columns rows => some (columns, rows)
  | _ => none

omit [Unicode] [FloatOps] [SqlParser] in
theorem Reply.Shows.table {response : QueryResponse} {reply : Reply}
    (h : reply.Shows response) :
    reply.table = some (response.columns, response.rows) := by
  cases reply with
  | result fresh => simp [Reply.table, h.1, h.2.1]
  | exported format columns rows => simp [Reply.table, h.1, h.2]
  | _ => exact absurd h id

/--
In every run whose requests each come from the caller their key belongs to, a
response from the result cache shows what the request would be shown without
the cache; it would not have been refused.
-/
theorem cached_response_respects_access (hs : Cold s)
    (h : EveryStep (stepState cfg) (RepeatsOnly owner) s requests) :
    EveryStep (stepState cfg) (fun s r => ∀ text response,
      Served r s text response → (serve cfg r s).result = .ok
      (.result { response with traceId := r.env.traceId }) ∧
        ∃ fresh, (serve cfg r s.withoutResults).result = .ok fresh ∧
          (∀ status message, fresh ≠ .error status message) ∧
          fresh.table = some (response.columns, response.rows))
      s requests := by
  refine h.of_inv (I := Kept (CachesFit cfg owner s.exec.registry)) ?_ hs.kept
  intro s r hinv hr
  refine ⟨fun text response hserved => ?_, stepState_cachesFit hinv hr⟩
  obtain ⟨fresh, hfresh, hshows⟩ := served_is_fresh hinv hr hserved
  refine ⟨by rw [serve_of_served hserved], fresh, hfresh, ?_, hshows.table⟩
  rintro status message rfl
  exact hshows

def Question.askedBy (q : Question V) (caller : Request V) : Question V where
  text := q.text
  request :=
    { env := caller.env
      auth := caller.auth
      body := { q.request.body with params := caller.body.params } }

omit [ArrowKernels V] [FloatOps] [SqlParser] in
theorem Repeatable.replayable {caller r : Request V} {text : Str}
    (h : Repeatable owner r text) (hcaller : SameCaller caller r) :
    Replayable (fun key => (owner key).askedBy caller) r text where
  asks := ⟨h.asks.text, h.asks.format, h.asks.page, h.asks.range⟩
  plain := h.plain
  settled := h.settled
  caller := ⟨hcaller.tenant, hcaller.user, hcaller.env⟩

/--
One caller who asks for the same page whenever the key is the same cannot
tell the result cache from an empty one.
-/
theorem result_cache_transparent (caller : Request V) (hs : Cold s)
    (hcaller : ∀ r ∈ requests, SameCaller caller r)
    (h : EveryStep (stepState cfg) (fun s r =>
      ForQueries (Repeatable owner r) s r) s requests) :
    EveryStep (stepState cfg) (fun s r => ∀ text response,
      Served r s text response → (serve cfg r s).result = .ok
      (.result { response with traceId := r.env.traceId }) ∧
        ∃ fresh, (serve cfg r s.withoutResults).result = .ok fresh ∧
          fresh.Shows response) s requests := by
  refine (h.and_mem hcaller).of_inv (I := Kept (CachesFit cfg
    (fun key => (owner key).askedBy caller) s.exec.registry)) ?_ hs.kept
  rintro s r hinv ⟨hr, hrcaller⟩
  have hrepeats : RepeatsOnly (fun key => (owner key).askedBy caller) s r :=
    fun text htext => (hr text htext).replayable hrcaller
  refine ⟨fun text response hserved => ?_, stepState_cachesFit hinv hrepeats⟩
  exact ⟨by rw [serve_of_served hserved], served_is_fresh hinv hrepeats hserved⟩

end Runs

section Plain

variable {V : Type} [ArrowKernels V] [Unicode] [FloatOps] [SqlParser]
  {owner : Str → Question V} {r : Request V} {s : AppState V} {text : Str}

omit [ArrowKernels V] [FloatOps] [SqlParser] in
theorem Repeatable.of_plain
    (hasks : AsksAgain (owner (normalizeQuery (cacheKey r.format text)))
      r text) (hctes : parseCtes text = .ok none)
    (hsubs : extractInSubqueries text = .ok []) :
    Repeatable owner r text where
  asks := hasks
  plain := hctes
  settled := by
    rintro refs - settled ⟨subs, hsubs', hsettled⟩ ref href
    rw [hsubs] at hsubs'
    cases hsubs'
    cases hsettled
    exact List.mem_map_of_mem href

omit [ArrowKernels V] [SqlParser] in
theorem ForQueries.of_text {P : Str → Prop}
    (htext : resolveText s.prepared r.body = .ok (.query text))
    (h : P text) : ForQueries P s r := by
  rintro text' (hperforms | ⟨response, hserved⟩)
  · have := hperforms.resolved
    rw [htext] at this
    cases this
    exact h
  · have := hserved.resolved
    rw [htext] at this
    cases this
    exact h

end Plain

section Example

attribute [local instance] asciiUnicode integersOnly textCells

def people : RecordBatch Str where
  schema := [{ name := "name", dataType := .utf8, nullable := true },
    { name := "ssn", dataType := .utf8, nullable := true }]
  rows := [[some "ann", some "1"], [some "bob", some "2"]]
  fits := by decide

def peopleSource : Env Str :=
  { Env.quiet Str with execute := fun _ _ _ => .ok [people] }

def onlyAdmins : Config where
  columnRbac := some [{
    datasource := "a"
    denyFields := ["ssn"]
    allowedRoles := ["admin"] }]

def askPeople (role : Role) (now : Nat) (page : PageRequest) : Request Str where
  env := { peopleSource with now }
  auth := some ⟨"ann", role⟩
  body := { query := "SELECT * FROM a.t", page }

def shown (o : Outcome Failure (AppState Str) Call Reply) :
    Option (List Str × List (List (Option Str))) :=
  (Except.toOption o.result).bind Reply.table

def wholeTable (role : Role) (page : PageRequest) : Str → Question Str :=
  fun _ => ⟨askPeople role 0 page, "SELECT * FROM a.t"⟩

theorem askPeople_repeats [SqlParser] (role : Role) (now : Nat)
    (page : PageRequest) (s : AppState Str) :
    ForQueries (Repeatable (wholeTable role page) (askPeople role now page)) s
      (askPeople role now page) :=
  ForQueries.of_text (s := s) (r := askPeople role now page) rfl
    (Repeatable.of_plain ⟨rfl, rfl, rfl, rfl⟩ rfl rfl)

/-- What an administrator was shown is shown to a viewer. -/
theorem cached_response_leaks_column :
    letI := tableParser [("SELECT * FROM a.t", everything "a.t")]
    let s := stepState onlyAdmins (askPeople .admin 0 {}) freshServer
    let viewer := askPeople .viewer 1 {}
    (s.resultCache.get 1 (cacheKey "sql" "SELECT * FROM a.t")).1.isSome ∧
      shown (serve onlyAdmins viewer s) = some
      ⟨["name", "ssn"], [[some "ann", some "1"],
          [some "bob", some "2"]]⟩ ∧
      shown (serve onlyAdmins viewer s.withoutResults) =
        some ⟨["name"], [[some "ann"], [some "bob"]]⟩ := by decide +kernel

theorem cached_response_respects_one_viewer :
    letI := tableParser [("SELECT * FROM a.t", everything "a.t")]
    let requests := [askPeople .viewer 0 {}, askPeople .viewer 1 {}]
    EveryStep (stepState onlyAdmins) (fun s r => ∀ text response,
        Served r s text response →
        (serve onlyAdmins r s).result =
            .ok (.result { response with traceId := r.env.traceId }) ∧
          ∃ fresh, (serve onlyAdmins r s.withoutResults).result = .ok fresh ∧
            (∀ status message, fresh ≠ .error status message) ∧
            fresh.table = some (response.columns, response.rows))
        freshServer requests ∧
      ((stepState onlyAdmins (askPeople .viewer 0 {})
        freshServer).resultCache.get 1
          (cacheKey "sql" "SELECT * FROM a.t")).1.isSome := by
  let := tableParser [("SELECT * FROM a.t", everything "a.t")]
  have hrepeats : ∀ now s, RepeatsOnly (wholeTable .viewer {}) s
      (askPeople .viewer now {}) := fun now s text htext =>
    { askPeople_repeats .viewer now {} s text htext with
      caller := ⟨rfl, rfl, rfl⟩ }
  refine ⟨cached_response_respects_access ⟨rfl, rfl, rfl⟩
    ⟨hrepeats 0 _, hrepeats 1 _, trivial⟩, by decide +kernel⟩

/-- A whole table is asked for and the page of an earlier request shown. -/
theorem cached_page_is_stale :
    letI := tableParser [("SELECT * FROM a.t", everything "a.t")]
    let s := stepState {} (askPeople .viewer 0 { pageSize := some 1 })
      freshServer
    let whole := askPeople .viewer 1 {}
    (s.resultCache.get 1 (cacheKey "sql" "SELECT * FROM a.t")).1.isSome ∧
      shown (serve {} whole s) = some ⟨["name", "ssn"],
        [[some "ann", some "1"]]⟩ ∧
      shown (serve {} whole s.withoutResults) =
        some ⟨["name", "ssn"], [[some "ann", some "1"],
          [some "bob", some "2"]]⟩ := by decide +kernel

theorem result_cache_transparent_first_page :
    letI := tableParser [("SELECT * FROM a.t", everything "a.t")]
    let requests := [askPeople .viewer 0 { pageSize := some 1 },
      askPeople .viewer 1 { pageSize := some 1 }]
    EveryStep (stepState {}) (fun s r => ∀ text response,
        Served r s text response →
        (serve {} r s).result =
            .ok (.result { response with traceId := r.env.traceId }) ∧
          ∃ fresh, (serve {} r s.withoutResults).result = .ok fresh ∧
            fresh.Shows response) freshServer requests ∧
      ((stepState {} (askPeople .viewer 0 { pageSize := some 1 })
        freshServer).resultCache.get 1
          (cacheKey "sql" "SELECT * FROM a.t")).1.isSome := by
  let := tableParser [("SELECT * FROM a.t", everything "a.t")]
  refine ⟨result_cache_transparent
    (askPeople .viewer 0 { pageSize := some 1 }) ⟨rfl, rfl, rfl⟩ ?_
    ⟨askPeople_repeats .viewer 0 _ _, askPeople_repeats .viewer 1 _ _,
      trivial⟩, by decide +kernel⟩
  intro r hr
  rcases List.mem_pair.mp hr with rfl | rfl
  · exact ⟨rfl, rfl, rfl⟩
  · exact ⟨rfl, rfl, rfl⟩

end Example

end Fuse.Server
