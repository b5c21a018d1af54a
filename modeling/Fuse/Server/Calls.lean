import Fuse.Server.Handler

/-!
# Which connectors are called

For each part of the pipeline that calls connectors: if the sources it is
given are good, it calls good ones only.  `CallsOnly I G m P` also says
what is known of a result.
-/

namespace Fuse.Server

open Foundation Fuse.Core Engine List
open Foundation.Traced (Spec)

section Rules

variable {V α : Type} {I : Registry V → Prop} {G : Str → Prop} {P : α → Prop}

abbrev CallsOnly (I : Registry V → Prop) (G : Str → Prop) (m : Exec V α)
    (P : α → Prop) : Prop :=
  Spec (fun s => I s.registry) (fun c : Call => G c.datasource) m P

def KeptByRegister (I : Registry V → Prop) : Prop :=
  ∀ registry id connector, I registry → I (registry.register id connector)

namespace CallsOnly

theorem liftFallible {x : Fallible α} (h : ∀ a, x = .ok a → P a) :
    CallsOnly I G (Exec.liftFallible x : Exec V α) P :=
  Spec.lift h

theorem fail {message : Str} : CallsOnly I G (Exec.fail message : Exec V α) P :=
  Spec.lift fun _ h => by cases h

theorem registry : CallsOnly I G (Exec.registry : Exec V (Registry V)) I :=
  Spec.bind Spec.getState fun _ hs => Spec.pure hs

theorem register {id : Str} {connector : Connector V}
    (hinv : KeptByRegister I) :
    CallsOnly I G (Exec.register id connector) fun _ => True :=
  Spec.modifyState fun _ hs => hinv _ _ _ hs

theorem nextCall : CallsOnly I G (Exec.nextCall : Exec V Nat) fun _ => True :=
  Spec.bind Spec.getState fun _ _ =>
    Spec.bind (Spec.modifyState fun _ hs => hs) fun _ _ =>
      Spec.pure trivial

theorem attempt {m : Exec V α} (h : CallsOnly I G m P) :
    CallsOnly I G (Exec.attempt m) fun r => ∀ a, r = .ok a → P a := by
  intro s hs
  obtain ⟨htrace, hstate, hpost⟩ := h s hs
  refine ⟨htrace, hstate, ?_⟩
  intro r hr a ha
  subst ha
  apply hpost a
  cases hm : (m s).result with
  | ok b =>
    simp only [Exec.attempt, hm, Fallible.catchError] at hr
    cases hr
    rfl
  | error e =>
    cases e <;> simp [Exec.attempt, hm, Fallible.catchError] at hr

end CallsOnly

end Rules

section Queries

open CallsOnly

variable {V : Type} [ArrowKernels V] [Unicode] [FloatOps] [SqlParser]
  {I : Registry V → Prop} {G : Str → Prop} (env : Env V)

/-! ## Running on the sources -/

variable {range : Option RangeParams} {query : Str} {format : Str}
  {recursive : Bool} {cte : CteDef} {subs : List InSubquery}

omit [ArrowKernels V] in
theorem executeSingle_calls {query format : Str} {ref : TableRef}
    (h : G ref.datasource) :
    CallsOnly I G (executeSingle env query format ref range) fun fed =>
    fed.partialErrors = [] := by
  refine Spec.bind registry fun registry _ => ?_
  split
  · exact fail
  refine .lift_bind fun _ _ => ?_
  refine Spec.bind nextCall fun number _ => ?_
  split
  · exact fail
  refine Spec.bind (Spec.emit h) fun _ _ => ?_
  split
  · exact fail
  · exact Spec.pure rfl

omit [ArrowKernels V] [Unicode] [FloatOps] [SqlParser] in
theorem runTask_calls {task : UnionTask V} (h : G task.datasource) :
    CallsOnly I G (runTask env task)
      fun result => ∃ number, result = taskResult env number task := by
  refine Spec.bind nextCall fun number _ => ?_
  split
  · refine Spec.bind (Spec.emit h) fun _ _ => ?_
    exact Spec.pure ⟨number, rfl⟩
  · exact Spec.pure ⟨number, rfl⟩

def FanoutOf (I : Registry V → Prop) (refs : List TableRef)
    (fed : FederatedResult V) : Prop :=
  ∃ registry base results, I registry ∧
    (∀ result ∈ results, ∃ task ∈ unionTasks registry base refs,
      ∃ number, result = taskResult env number task) ∧
    collectUnion results = .ok fed

variable {refs : List TableRef}

theorem executeUnion_calls {query format : Str}
    (h : ∀ r ∈ refs, G r.datasource) :
    CallsOnly I G (executeUnion env query format refs)
    (FanoutOf env I refs) := by
  refine .lift_bind fun base _ => ?_
  refine Spec.bind registry fun registry hregistry => ?_
  refine Spec.bind (Spec.mapM (Q := fun result =>
    ∃ task ∈ unionTasks registry base refs, ∃ number,
      result = taskResult env number task) fun task htask => ?_) ?_
  · refine (runTask_calls env ?_).weaken fun result hresult =>
      ⟨task, htask, hresult⟩
    obtain ⟨⟨r, sq⟩, hr, heq⟩ := mem_filterMap.mp htask
    obtain ⟨connector, -, rfl⟩ := Option.map_eq_some_iff.mp heq
    exact h r (of_mem_zip hr).1
  · exact fun results hresults => liftFallible fun fed hfed =>
      ⟨registry, base, results, hregistry, hresults, hfed⟩

omit [SqlParser] in
theorem executeJoin_calls (h : ∀ r ∈ refs, G r.datasource) :
    CallsOnly I G (executeJoin env query refs) fun fed =>
    fed.partialErrors = [] := by
  unfold executeJoin
  split
  · rename_i a b
    refine Spec.bind registry fun registry _ => ?_
    split
    · exact fail
    · exact fail
    · refine Spec.bind nextCall fun _ _ => ?_
      refine Spec.bind nextCall fun _ _ => ?_
      split
      · exact fail
      refine Spec.bind (Spec.emit (h a (by simp))) fun _ _ => ?_
      refine Spec.bind (Spec.emit (h b (by simp))) fun _ _ => ?_
      refine .lift_bind fun _ _ => ?_
      refine .lift_bind fun _ _ => Spec.pure rfl
  · exact fail

def RunsAsFanout (query format : Str) (refs : List TableRef) : Prop :=
  refs.length ≠ 1 ∧ (format = "ppl" || isUnionQuery query) = true

theorem executeRefs_calls {query format : Str}
    (h : ∀ r ∈ refs, G r.datasource) :
    CallsOnly I G (executeRefs env query format refs range) fun fed =>
    fed.partialErrors = [] ∨
        RunsAsFanout query format refs ∧ FanoutOf env I refs fed := by
  unfold executeRefs
  split
  · exact (executeSingle_calls env (h _ (by simp))).weaken fun _ => Or.inl
  rename_i hmany
  split
  · rename_i hfanout
    refine (executeUnion_calls env h).weaken fun fed hfed =>
      .inr ⟨⟨fun hone => ?_, hfanout⟩, hfed⟩
    obtain ⟨ref, href⟩ := length_eq_one_iff.mp hone
    exact hmany ref href
  · exact (executeJoin_calls env h).weaken fun _ => Or.inl

/-! ## Common table expressions -/

def CteText (recursive : Bool) (cte : CteDef) (text : Str) : Prop :=
  if isRecursiveCte recursive cte then
    ∃ base step, splitRecursive cte.body = .ok (some (base, step)) ∧
      (text = base ∨ text = step)
  else text = cte.body

def CteNames (recursive : Bool) (cte : CteDef) (ref : TableRef) : Prop :=
  ∃ text refs, CteText recursive cte text ∧ parseSqlSources text = .ok refs ∧
    ref ∈ refs

omit [Unicode] [FloatOps] [SqlParser] in
theorem toOption_parse {α : Type} {x : Fallible α} {a : α}
    (h : Fallible.toOption x = .ok (some a)) : x = .ok a := by
  cases x with
  | ok b =>
    simp only [Fallible.toOption, Except.ok.injEq, Option.some.injEq] at h
    rw [h]
  | error e => cases e <;> simp [Fallible.toOption] at h

theorem recursiveRounds_calls {name sql format : Str} (rounds : Nat)
    {all working : List (RecordBatch V)} (hinv : KeptByRegister I)
    (h : ∀ refs, parseSqlSources sql = .ok refs → ∀ r ∈ refs, G r.datasource) :
    CallsOnly I G (recursiveRounds env name sql format rounds all working)
    fun _ => True := by
  induction rounds generalizing all working with
  | zero => exact Spec.pure trivial
  | succ rounds ih =>
    unfold recursiveRounds
    split
    · exact Spec.pure trivial
    refine Spec.bind (register hinv) fun _ _ => ?_
    refine .lift_bind fun refs hrefs => ?_
    split
    · exact Spec.pure trivial
    rename_i found
    have hgood := h found (toOption_parse hrefs)
    split
    · refine Spec.bind (attempt (P := fun _ => True) ?_) fun result _ => ?_
      · split
        · exact (executeSingle_calls env (hgood _ (by simp))).weaken fun _ _ =>
            trivial
        · exact (executeJoin_calls env hgood).weaken fun _ _ => trivial
      · split
        · split
          · exact ih
          · exact Spec.pure trivial
        · exact Spec.pure trivial
    · exact Spec.pure trivial

theorem executeCte_plain_calls (hplain : ¬ isRecursiveCte recursive cte = true)
    (h : ∀ ref, CteNames recursive cte ref → G ref.datasource) :
    CallsOnly I G (executeCte env format recursive cte) fun _ => True := by
  unfold executeCte
  rw [if_neg hplain]
  refine .lift_bind fun refs hrefs => ?_
  split
  · exact Spec.pure trivial
  rename_i found
  have hgood : ∀ r ∈ found, G r.datasource := by
    intro r hr
    refine h r ⟨cte.body, found, ?_, toOption_parse hrefs, hr⟩
    rw [CteText, if_neg hplain]
  refine Spec.bind (attempt (P := fun _ => True) ?_) fun result _ => ?_
  · split
    · exact (executeSingle_calls env (hgood _ (by simp))).weaken fun _ _ =>
        trivial
    · split
      · exact (executeUnion_calls env hgood).weaken fun _ _ => trivial
      · exact (executeJoin_calls env hgood).weaken fun _ _ => trivial
  · exact Spec.pure trivial

private theorem executeCte_calls (hinv : KeptByRegister I)
    (h : ∀ ref, CteNames recursive cte ref → G ref.datasource) :
    CallsOnly I G (executeCte env format recursive cte) fun _ => True := by
  by_cases hrec : isRecursiveCte recursive cte = true
  · unfold executeCte executeRecursiveCte
    rw [if_pos hrec]
    refine .lift_bind fun parts hparts => ?_
    split
    · exact Spec.pure trivial
    rename_i base step
    have hgood : ∀ text, (text = base ∨ text = step) → ∀ refs,
      parseSqlSources text = .ok refs →
        ∀ r ∈ refs, G r.datasource := by
      intro text htext refs hrefs r hr
      refine h r ⟨text, refs, ?_, hrefs, hr⟩
      rw [CteText, if_pos hrec]
      exact ⟨base, step, hparts, htext⟩
    refine .lift_bind fun refs hrefs => ?_
    split
    · rename_i ref
      have href := hgood base (.inl rfl) _ (toOption_parse hrefs) ref (by simp)
      refine Spec.bind (attempt (executeSingle_calls env href))
        fun result _ => ?_
      split
      · exact recursiveRounds_calls env 100 hinv (hgood step (.inr rfl))
      · exact Spec.pure trivial
    · exact Spec.pure trivial
  · exact executeCte_plain_calls env hrec h

theorem registerCte_calls (hinv : KeptByRegister I)
    (h : ∀ ref, CteNames recursive cte ref → G ref.datasource) :
    CallsOnly I G (registerCte env format recursive cte) fun _ => True := by
  refine Spec.bind (executeCte_calls env hinv h) fun batches _ => ?_
  split
  · exact register hinv
  · exact Spec.pure trivial

theorem resolveCtes_calls {format query : Str}
    (hinv : ∀ p, parseCtes query = .ok (some p) → KeptByRegister I)
    (h : ∀ p, parseCtes query = .ok (some p) → ∀ cte ∈ p.defs, ∀ ref,
      CteNames p.recursive cte ref →
      G ref.datasource) : CallsOnly I G (resolveCtes env format query refs)
    fun main =>
      ∃ plan, parseCtes query = .ok plan ∧
          mainQuery plan query refs = .ok main := by
  refine .lift_bind fun plan hplan => ?_
  split
  · exact Spec.pure ⟨none, hplan, rfl⟩
  rename_i p
  refine Spec.bind (Spec.forM fun cte hcte =>
    registerCte_calls env (hinv p hplan) (h p hplan cte hcte)) fun _ _ => ?_
  exact liftFallible fun _ hmain => ⟨some p, hplan, hmain⟩

/-! ## `IN` sub-selects -/

omit [ArrowKernels V] [Unicode] [FloatOps] [SqlParser] in
theorem callConnector_calls {ds : Str} {connector : Connector V} {sq : SubQuery}
    (h : G ds) :
    CallsOnly I G (callConnector env ds connector sq) fun _ => True := by
  refine Spec.bind nextCall fun _ _ => ?_
  exact Spec.bind (Spec.emit h) fun _ _ => Spec.pure trivial

theorem inSubqueryValues_calls {isq : InSubquery} (h : G isq.datasource) :
    CallsOnly I G (inSubqueryValues env format isq) fun _ => True := by
  refine Spec.bind registry fun _ _ => ?_
  split
  · exact Spec.pure trivial
  refine .lift_bind fun _ _ => ?_
  refine Spec.bind (callConnector_calls env h) fun _ _ => ?_
  split
  · exact liftFallible fun _ _ => trivial
  · exact Spec.pure trivial

def Substituted (subs : List InSubquery) (query resolved : Str) : Prop :=
  ∃ values : List (List Str), values.length = subs.length ∧
    resolved = (subs.zip values).foldl
      (fun q (isq, vs) => substitute isq vs q) query

omit [Unicode] [FloatOps] [SqlParser] in
theorem Substituted.cons {isq : InSubquery} {query resolved : Str}
    (vs : List Str) (h : Substituted subs (substitute isq vs query) resolved) :
    Substituted (isq :: subs) query resolved := by
  obtain ⟨values, hlength, rfl⟩ := h
  exact ⟨vs :: values, by simp [hlength], rfl⟩

theorem substituteAll_calls {format query : Str}
    (h : ∀ isq ∈ subs, G isq.datasource) :
    CallsOnly I G (subs.foldlM (fun q isq => do
      return substitute isq (← inSubqueryValues env format isq) q) query)
      (Substituted subs query) := by
  induction subs generalizing query with
  | nil => exact Spec.pure ⟨[], rfl, rfl⟩
  | cons isq subs ih =>
    rw [foldlM_cons]
    refine Spec.bind (P := fun q => ∃ vs, q = substitute isq vs query) ?_ ?_
    · refine Spec.bind (inSubqueryValues_calls env (h isq (by simp)))
        fun vs _ => ?_
      exact Spec.pure ⟨vs, rfl⟩
    · rintro _ ⟨vs, rfl⟩
      exact (ih fun i hi => h i (by simp [hi])).weaken fun _ hq => hq.cons vs

def Settled (format query : Str) (refs : List TableRef)
    (settled : Str × List TableRef) : Prop :=
  ∃ subs, extractInSubqueries query = .ok subs ∧
    if subs.isEmpty then settled = (query, refs)
    else Substituted subs query settled.1 ∧
      Fallible.orElse (parseSources format settled.1) refs = .ok settled.2

theorem resolveInSubqueries_calls {format query : Str}
    (h : ∀ subs, extractInSubqueries query = .ok subs → ∀ isq ∈ subs,
      G isq.datasource) :
    CallsOnly I G (resolveInSubqueries env format query refs)
        (Settled format query refs) := by
  refine .lift_bind fun subs hsubs => ?_
  refine Spec.bind (substituteAll_calls env (h subs hsubs))
    fun resolved hresolved => ?_
  split
  · rename_i hempty
    refine Spec.pure ⟨subs, hsubs, ?_⟩
    rw [if_pos hempty]
  rename_i hempty
  refine .lift_bind fun newRefs hrefs => Spec.pure ⟨subs, hsubs, ?_⟩
  rw [if_neg hempty]
  exact ⟨hresolved, hrefs⟩

/-! ## Queries -/

theorem runSettled_calls {r : Request V}
    (hsubs : ∀ subs, extractInSubqueries query = .ok subs →
      ∀ isq ∈ subs, G isq.datasource) (hsettled : ∀ settled,
      Settled r.format query refs settled →
      ∀ ref ∈ settled.2, G ref.datasource) :
    CallsOnly I G (runSettled r query refs) fun result =>
      ∀ ex, result = .ok ex →
        Settled r.format query refs (ex.query, ex.refs) ∧
          (ex.fed.partialErrors = [] ∨
            RunsAsFanout ex.query r.format ex.refs ∧
              FanoutOf r.env I ex.refs ex.fed) := by
  refine Spec.bind (resolveInSubqueries_calls r.env hsubs) ?_
  rintro settled hset
  refine Spec.bind (attempt (executeRefs_calls r.env
    (hsettled settled hset))) fun result hresult => ?_
  split
  · exact Spec.pure fun _ h => by cases h
  · exact Spec.pure fun _ h => by cases h
  · refine Spec.pure fun ex h => ?_
    cases h
    exact ⟨hset, hresult _ rfl⟩

/-- The rule for a query up to its execution: what is left is to say of the
settled text, when its sources have passed the checks. -/
theorem runSelect_calls {cfg : Config} {r : Request V} {text : Str}
    {planned : Option (List TableRef)} {P : Except Reply (Execution V) → Prop}
    (hinv : ∀ p, parseCtes text = .ok (some p) → KeptByRegister I)
    (herror : ∀ reply, P (.error reply))
    (hctes : ∀ refs, sourcesOf r.format text planned = .ok (.ok refs) → ∀ p,
      parseCtes text = .ok
      (some p) → ∀ cte ∈ p.defs, ∀ ref, CteNames p.recursive cte ref →
      G ref.datasource)
    (hmain : ∀ refs, sourcesOf r.format text planned = .ok (.ok refs) → ∀ plan,
      parseCtes text = .ok plan → ∀ query refs',
      mainQuery plan text refs = .ok (query, refs') →
      refuseTenant cfg.tenants r.tenantId refs' = none →
      CallsOnly I G (runSettled r query refs')
      P) : CallsOnly I G (runSelect cfg r text planned) P := by
  refine .lift_bind fun parsed hparsed => ?_
  split
  · exact Spec.pure (herror _)
  · exact Spec.pure (herror _)
  · rename_i refs _
    refine Spec.bind (resolveCtes_calls r.env hinv (hctes refs hparsed)) ?_
    rintro ⟨query, refs'⟩ ⟨plan, hplan, hquery⟩
    refine Spec.bind registry fun registry _ => ?_
    split
    · exact Spec.pure (herror _)
    · rename_i hpassed
      exact hmain refs hparsed plan hplan query refs' hquery
        (Option.or_eq_none_iff.mp hpassed).2

/-! ## Writes and views -/

omit [ArrowKernels V] [Unicode] [FloatOps] [SqlParser] in
private theorem writeTo_calls {dest : TableRef} {batches : List (RecordBatch V)}
    (h : G dest.datasource) :
    CallsOnly I G (writeTo env dest batches) fun _ => True := by
  refine Spec.bind registry fun _ _ => ?_
  split
  · exact Spec.pure trivial
  · refine Spec.bind nextCall fun _ _ => ?_
    exact Spec.bind (Spec.emit h) fun _ _ => Spec.pure trivial

omit [ArrowKernels V] [FloatOps] [SqlParser] in
theorem writeAnswer_calls {w : WriteSelect} {status : Nat} {message : Str}
    (hdest : G w.destination.datasource)
    (answered : Except ConnectorError (List (RecordBatch V))) :
    CallsOnly I G (writeAnswer env w status message answered) fun _ =>
    True := by
  unfold writeAnswer
  split
  · exact Spec.pure trivial
  refine Spec.bind (writeTo_calls env hdest) fun _ _ => ?_
  split <;> exact Spec.pure trivial

omit [ArrowKernels V] in
theorem writeSelect_calls {w : WriteSelect} {status : Nat} {message : Str}
    (hsource : ∀ src, firstSource w.select = .ok (some src) →
      G src.datasource) (hdest : G w.destination.datasource) :
    CallsOnly I G (writeSelect env w status message) fun _ => True := by
  refine .lift_bind fun found hfound => ?_
  split
  · exact Spec.pure trivial
  rename_i src
  refine Spec.bind registry fun _ _ => ?_
  split
  · exact Spec.pure trivial
  refine .lift_bind fun _ _ => ?_
  split
  · exact Spec.pure trivial
  exact Spec.bind (callConnector_calls env (hsource src hfound)) fun _ _ =>
    writeAnswer_calls env hdest _

omit [ArrowKernels V] in
theorem viewBatches_calls
    (h : ∀ src, firstSource query = .ok (some src) → G src.datasource) :
    CallsOnly I G (viewBatches env query) fun _ => True := by
  refine .lift_bind fun found hfound => ?_
  split
  · exact Spec.pure trivial
  rename_i src
  refine Spec.bind registry fun _ _ => ?_
  split
  · exact Spec.pure trivial
  refine .lift_bind fun _ _ => ?_
  split
  · exact Spec.pure trivial
  · exact Spec.bind (callConnector_calls env (h src hfound)) fun _ _ =>
      Spec.pure trivial

end Queries

end Fuse.Server
