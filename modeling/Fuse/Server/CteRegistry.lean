import Fuse.Foundation.Grouping
import Fuse.Server.Degraded

/-!
# What a `WITH` leaves behind

The rows of a definition are registered under its name in the registry of the
server, and nothing takes them out again.  An identifier that is taken keeps
its connector.  So a definition that is run either makes the registry grow for
all later requests, or its name goes on to denote what it denoted before.
-/

namespace Fuse.Server

open Foundation Fuse.Core Engine List Traced
open Foundation.Traced (Spec SpecAt)

section Registered

variable {V : Type}

def Taken (name : Str) (registry : Registry V) : Prop :=
  (registry.get name).isSome = true

theorem taken_register (registry : Registry V) (name : Str)
    (connector : Connector V) :
    Taken name (registry.register name connector) := by
  unfold Taken Registry.register
  split
  · next htaken => exact htaken
  · unfold Registry.get
    rw [lookup_append, lookup_cons]
    simp

variable {registry : Registry V}

theorem register_of_taken {name : Str} (h : Taken name registry)
    (connector : Connector V) : registry.register name connector = registry :=
  if_pos h

theorem Taken.keptByRegister (name : Str) :
    KeptByRegister (Taken name (V := V)) := by
  intro registry id connector h
  unfold Registry.register
  split
  · exact h
  · unfold Taken Registry.get at h ⊢
    rw [lookup_append, Option.isSome_or, h]
    rfl

def OnlyExternal (registry : Registry V) : Prop :=
  ∀ entry ∈ registry, entry.2 = .external

theorem OnlyExternal.get_ne_memory (h : OnlyExternal registry) (name : Str)
    (batches : List (RecordBatch V)) :
    registry.get name ≠ some (.memory batches) := by
  intro hget
  have hexternal := h _ (mem_of_lookup hget)
  cases hexternal

end Registered

section Definitions

variable {V : Type} [ArrowKernels V] [Unicode] [FloatOps] [SqlParser]
  (env : Env V) (format : Str) (recursive : Bool)

/-! ## Definitions that are run -/

inductive CteRuns (cte : CteDef) (s : ExecState V) : Prop
  | body {rows : List (RecordBatch V)}
    (hplain : ¬ isRecursiveCte recursive cte = true)
      (hrows : (executeCte env format recursive cte s).result = .ok (some rows))
  | base {base step : Str} {ref : TableRef} {fed : FederatedResult V}
      (hrec : isRecursiveCte recursive cte = true)
        (hparts : splitRecursive cte.body = .ok
      (some (base, step))) (href : parseSqlSources base = .ok [ref])
      (hfed : (executeSingle env base format ref none s).result = .ok fed)

def SomeRuns : List CteDef → ExecState V → Prop
  | [], _ => False
  | cte :: defs, s => CteRuns env format recursive cte s ∨
      (registerCte env format recursive cte s).result = .ok () ∧
        SomeRuns defs (registerCte env format recursive cte s).state

def cteRows : List CteDef → ExecState V → List (Option (List (RecordBatch V)))
  | [], _ => []
  | cte :: defs, s =>
    (Except.toOption (executeCte env format recursive cte s).result).join ::
      match (registerCte env format recursive cte s).result with
      | .ok _ =>
        cteRows defs (registerCte env format recursive cte s).state
      | .error _ => defs.map fun _ => none

variable {env format recursive} {cte : CteDef} {s : ExecState V}

omit [ArrowKernels V] in
theorem executeSingle_registry (query : Str) (ref : TableRef)
    (range : Option RangeParams) :
    (executeSingle env query format ref range s).state.registry = s.registry :=
  (executeSingle_calls (I := (· = s.registry)) (G := fun _ => True) env
    trivial s rfl).2.1

abbrev LeavesNothing (m : Exec V (Option (List (RecordBatch V))))
    (s : ExecState V) : Prop :=
  SpecAt (fun st => st.registry = s.registry) (fun _ => True) m
    (fun rows => rows = none) s

omit [ArrowKernels V] [Unicode] [FloatOps] [SqlParser] in
theorem leavesNothing_none : LeavesNothing (pure none) s :=
  Spec.pure (P := fun rows => rows = none) rfl s rfl

theorem executeRecursiveCte_idle {name inner : Str}
    (h : ∀ base step ref fed, splitRecursive inner = .ok (some (base, step)) →
      parseSqlSources base = .ok [ref] →
      (executeSingle env base format ref none s).result ≠
      .ok fed) : LeavesNothing (executeRecursiveCte env name inner format)
    s := by
  refine SpecAt.lift_bind rfl fun parts hparts => ?_
  cases parts with
  | none => exact leavesNothing_none
  | some parts =>
    obtain ⟨base, step⟩ := parts
    refine SpecAt.lift_bind rfl fun refs hrefs => ?_
    split
    · rename_i ref
      have hfails : SpecAt (fun st => st.registry = s.registry) (fun _ => True)
          (Exec.attempt (executeSingle env base format ref none))
          (fun result => ∀ fed, result ≠ .ok fed) s := by
        refine ⟨fun _ _ => trivial, executeSingle_registry _ _ _, ?_⟩
        intro result hresult fed hok
        subst hok
        refine h base step ref fed hparts (toOption_parse hrefs) ?_
        exact Fallible.of_catchError_ok hresult
      refine hfails.bind fun result hresult => ?_
      split
      · next fed => exact absurd rfl (hresult fed)
      · exact Spec.pure rfl
    · exact leavesNothing_none

theorem executeCte_idle (h : ¬ CteRuns env format recursive cte s) :
    LeavesNothing (executeCte env format recursive cte) s := by
  by_cases hrec : isRecursiveCte recursive cte = true
  · rw [executeCte, if_pos hrec]
    exact executeRecursiveCte_idle fun _ _ _ _ hparts hrefs hfed =>
      h (.base hrec hparts hrefs hfed)
  obtain ⟨htrace, hstate, -⟩ := executeCte_plain_calls (I := (· = s.registry))
    (G := fun _ => True) env hrec (fun _ _ => trivial) s rfl
  refine ⟨htrace, hstate, fun rows hrows => ?_⟩
  cases rows with
  | none => rfl
  | some rows => exact absurd (.body hrec hrows) h

private theorem registerCte_idle (h : ¬ CteRuns env format recursive cte s) :
    (registerCte env format recursive cte s).state.registry = s.registry := by
  have hspec : SpecAt (fun st => st.registry = s.registry) (fun _ => True)
      (registerCte env format recursive cte) (fun _ => True) s := by
    refine (executeCte_idle h).bind fun rows hrows => ?_
    rw [hrows]
    exact Spec.pure trivial
  exact hspec.2.1

theorem registerCtes_idle {defs : List CteDef}
    (h : ¬ SomeRuns env format recursive defs s) :
    (defs.forM (registerCte env format recursive) s).state.registry =
    s.registry ∧ ∀ rows ∈ cteRows env format recursive defs s, rows = none := by
  induction defs generalizing s with
  | nil => exact ⟨rfl, by simp [cteRows]⟩
  | cons cte defs ih =>
    obtain ⟨hidle, hrest⟩ := not_or.mp h
    have hnone : (Except.toOption
        (executeCte env format recursive cte s).result).join = none := by
      have hrows := (executeCte_idle hidle).2.2
      cases hresult : (executeCte env format recursive cte s).result with
      | error e => rfl
      | ok rows =>
        rw [hrows rows hresult]
        rfl
    cases hresult : (registerCte env format recursive cte s).result with
    | error e =>
      rw [forM_cons_error hresult]
      exact ⟨registerCte_idle hidle, by simp [cteRows, hnone, hresult]⟩
    | ok u =>
      obtain ⟨hregistry, hrows⟩ := ih fun hruns => hrest ⟨hresult, hruns⟩
      rw [forM_cons_ok hresult, hregistry]
      refine ⟨registerCte_idle hidle, ?_⟩
      simpa [cteRows, hnone, hresult] using hrows

/-! ## Definitions that leave their name -/

/-- A definition with rows, or with its name taken on the way, has its name
taken in the end. -/
theorem registerCte_taken {rows : List (RecordBatch V)}
    (h : Taken cte.name (executeCte env format recursive cte s).state.registry ∨
      (executeCte env format recursive cte s).result = .ok (some rows)) :
    Taken cte.name (registerCte env format recursive cte s).state.registry := by
  unfold registerCte
  rcases h with htaken | hrows
  · have hexecuted : SpecAt (fun st => Taken cte.name st.registry)
      (fun _ => True)
        (executeCte env format recursive cte) (fun _ => True) s :=
          ⟨fun _ _ => trivial, htaken,
        fun _ _ => trivial⟩
    refine (hexecuted.bind (Q := fun _ => True) fun found _ => ?_).2.1
    split
    · exact CallsOnly.register (G := fun _ => True)
        (Taken.keptByRegister cte.name)
    · exact Spec.pure trivial
  · rw [bind_ok hrows]
    exact taken_register _ _ _

/-- A round that has registered its working set may as well begin with it
registered. -/
theorem recursiveRounds_registered {name sql : Str} {rounds : Nat}
    {all working : List (RecordBatch V)}
    (hrows : ¬ (working.all fun b => b.rows.isEmpty) = true) :
    recursiveRounds env name sql format (rounds + 1) all working s =
      recursiveRounds env name sql format (rounds + 1) all working
        { s with registry := s.registry.register name (.memory working) } := by
  have hagain := register_of_taken
    (taken_register s.registry name (.memory working)) (.memory working)
  rw [recursiveRounds, if_neg hrows, Exec.register, modifyState_bind,
    modifyState_bind, hagain]

theorem recursiveRounds_taken {name sql : Str} (rounds : Nat)
    (all working : List (RecordBatch V)) :
    Taken name (recursiveRounds env name sql format
      (rounds + 1) all working s).state.registry ∨
      (recursiveRounds env name sql format (rounds + 1) all working s).result =
        .ok (some all) := by
  by_cases hrows : (working.all fun b => b.rows.isEmpty) = true
  · rw [recursiveRounds, if_pos hrows]
    exact .inr rfl
  rw [recursiveRounds_registered hrows]
  refine .inl (recursiveRounds_calls (I := Taken name) (G := fun _ => True) env
    (rounds + 1) (Taken.keptByRegister name) (fun _ _ _ _ => trivial) _ ?_).2.1
  exact taken_register _ _ _

theorem executeRecursiveCte_base (name : Str) {inner base step : Str}
    {ref : TableRef} {fed : FederatedResult V}
    (hparts : splitRecursive inner = .ok (some (base, step)))
    (href : parseSqlSources base = .ok [ref])
    (hfed : (executeSingle env base format ref none s).result = .ok fed) :
    let rounds := recursiveRounds env name step format 100 fed.batches
      fed.batches (executeSingle env base format ref none s).state
    (executeRecursiveCte env name inner format s).result = rounds.result ∧
      (executeRecursiveCte env name inner format s).state = rounds.state := by
  have hrefs : Fallible.toOption (parseSqlSources base) = .ok (some [ref]) := by
    rw [href]
    rfl
  have hattempt : (Exec.attempt (executeSingle env base format ref none)
      s).result = .ok (.ok fed) := by
    rw [Exec.attempt, hfed]
    rfl
  rw [executeRecursiveCte, Exec.liftFallible, lift_bind_ok hparts]
  dsimp only
  rw [Exec.liftFallible, lift_bind_ok hrefs]
  dsimp only
  rw [bind_ok hattempt]
  exact ⟨rfl, rfl⟩

theorem CteRuns.taken (h : CteRuns env format recursive cte s) :
    Taken cte.name (registerCte env format recursive cte s).state.registry := by
  cases h with
  | body hplain hrows => exact registerCte_taken (.inr hrows)
  | @base base step ref fed hrec hparts href hfed =>
    obtain ⟨hresult, hstate⟩ :=
      executeRecursiveCte_base cte.name hparts href hfed
    have hrounds :
      Taken cte.name (executeCte env format recursive cte s).state.registry ∨
        (executeCte env format recursive cte s).result =
          .ok (some fed.batches) := by
      rw [executeCte, if_pos hrec, hresult, hstate]
      exact recursiveRounds_taken 99 fed.batches fed.batches
    exact registerCte_taken hrounds

theorem SomeRuns.taken {defs : List CteDef}
    (h : SomeRuns env format recursive defs s) :
    ∃ cte ∈ defs, Taken cte.name
      (defs.forM (registerCte env format recursive) s).state.registry := by
  induction defs generalizing s with
  | nil => exact h.elim
  | cons cte defs ih =>
    rcases h with hruns | ⟨hresult, hruns⟩
    · refine ⟨cte, by simp, ?_⟩
      have hfirst : SpecAt (fun st => Taken cte.name st.registry)
          (fun _ => True) (registerCte env format recursive cte)
              (fun _ => True) s :=
        ⟨fun _ _ => trivial, hruns.taken, fun _ _ => trivial⟩
      refine (hfirst.bind (Q := fun _ => True) fun _ _ => ?_).2.1
      exact Spec.forM fun other _ => registerCte_calls (G := fun _ => True)
        env (Taken.keptByRegister cte.name) fun _ _ => trivial
    · obtain ⟨found, hfound, htaken⟩ := ih hruns
      refine ⟨found, by simp [hfound], ?_⟩
      rwa [forM_cons_ok hresult]

end Definitions

section Requests

variable {V : Type} [ArrowKernels V] [Unicode] [FloatOps] [SqlParser]
  {cfg : Config} {r : Request V} {s : AppState V} {text : Str}

/-! ## Requests -/

structure Resolves (r : Request V) (s : AppState V) (text : Str) (p : CtePlan) :
    Prop where
  performs : Performs r s text .select
  sources : ∃ ref refs, sourcesOf r.format text (plannedSources r s text) =
    .ok (.ok (ref :: refs))
  plan : parseCtes text = .ok (some p)

/-- The connectors the main query of a `WITH` is run on. -/
def resolvedRegistry (r : Request V) (s : AppState V) (p : CtePlan) :
    Registry V :=
  (p.defs.forM (registerCte r.env r.format p.recursive)
    s.start.exec).state.registry

theorem runChecked_calls {I : Registry V → Prop} (query : Str)
    (refs : List TableRef) :
    CallsOnly I (fun _ => True) (runChecked cfg r query refs) fun _ =>
    True := by
  refine Spec.bind (CallsOnly.registry (G := fun _ => True)) fun _ _ => ?_
  split
  · exact Spec.pure trivial
  · exact (runSettled_calls (G := fun _ => True) (fun _ _ _ _ => trivial)
      fun _ _ _ _ => trivial).weaken fun _ _ => trivial

variable {planned : Option (List TableRef)}

theorem runSelect_registry {ref : TableRef} {refs : List TableRef} {p : CtePlan}
    {st : ExecState V}
    (hsources : sourcesOf r.format text planned = .ok (.ok (ref :: refs)))
    (hplan : parseCtes text = .ok (some p)) :
    (runSelect cfg r text planned st).state.registry =
      (p.defs.forM (registerCte r.env r.format p.recursive)
        st).state.registry := by
  let after := (p.defs.forM (registerCte r.env r.format p.recursive)
    st).state.registry
  have hdefs : SpecAt (fun s => s.registry = after) (fun _ => True)
      (p.defs.forM (registerCte r.env r.format p.recursive))
          (fun _ => True) st :=
    ⟨fun _ _ => trivial, rfl, fun _ _ => trivial⟩
  have hresolved : SpecAt (fun s => s.registry = after) (fun _ => True)
      (resolveCtes r.env r.format text (ref :: refs)) (fun _ => True) st := by
    rw [SpecAt, resolveCtes, Exec.liftFallible, lift_bind_ok hplan]
    exact hdefs.bind fun _ _ => Spec.lift fun _ _ => trivial
  rw [runSelect, Exec.liftFallible, lift_bind_ok hsources]
  exact (hresolved.bind fun main _ =>
    runChecked_calls (I := (· = after)) main.1 main.2).2.1

theorem runSelect_plain_registry {st : ExecState V} (h : ∀ ref refs p,
      sourcesOf r.format text planned = .ok (.ok (ref :: refs)) →
      parseCtes text ≠ .ok (some p)) :
    (runSelect cfg r text planned st).state.registry = st.registry := by
  rw [runSelect, Exec.liftFallible]
  rcases hsources : sourcesOf r.format text planned with
    e | message | _ | ⟨ref, refs⟩
  · rfl
  · rfl
  · rfl
  · rw [lift_bind_ok rfl]
    have hresolved : CallsOnly (· = st.registry) (fun _ => True)
        (resolveCtes r.env r.format text (ref :: refs)) fun _ => True :=
      (resolveCtes_calls (I := (· = st.registry)) (G := fun _ => True) r.env
        (fun p hplan => absurd hplan (h ref refs p hsources))
        fun _ _ _ _ _ _ => trivial).weaken fun _ _ => trivial
    exact (Spec.bind hresolved (fun main _ =>
      runChecked_calls (I := (· = st.registry)) main.1 main.2) st rfl).2.1

theorem stepState_select (hs : NoPending s) (h : Performs r s text .select) :
    (stepState cfg r s).exec.registry =
    (runSelect cfg r text (plannedSources r s text)
        s.start.exec).state.registry := by
  let J : CacheProperty V := fun registry _ _ => registry =
    (runSelect cfg r text (plannedSources r s text)
      s.start.exec).state.registry
  have hkept : SpecAt (Kept J) (fun _ => True)
    (handleSelect cfg r s.planCache text) (fun _ => True)
      (s.afterRead r text) :=
    handleSelect_keeps (G := fun _ => True) (P := fun _ => True) hs
      ⟨fun _ _ => trivial, rfl, fun _ _ => trivial⟩
      fun _ _ => ⟨fun _ _ _ _ _ _ h => h, fun _ _ _ _ _ _ _ h => h⟩
  unfold stepState
  rw [serve_of_performs h]
  exact hkept.2.1.2

theorem stepState_resolves {p : CtePlan} (hs : NoPending s)
    (h : Resolves r s text p) :
    (stepState cfg r s).exec.registry = resolvedRegistry r s p := by
  obtain ⟨ref, refs, hsources⟩ := h.sources
  rw [stepState_select hs h.performs, runSelect_registry hsources h.plan]
  rfl

theorem stepState_unresolved (hs : NoPending s)
    (h : ∀ text p, ¬ Resolves r s text p) :
    (stepState cfg r s).exec.registry = s.exec.registry := by
  let J : CacheProperty V := fun registry _ _ => registry = s.exec.registry
  have hkept : Kept J (stepState cfg r s) := by
    refine (serve_keeps (G := fun _ => True) (fun _ _ _ _ _ h => h)
      ⟨hs, rfl⟩ ?_ ?_).2
    · intro text command _
      cases command <;> simp [StatementGood, SourceGood]
    · intro text hperforms hread
      refine handleSelect_keeps (G := fun _ => True) (P := fun _ => True)
        hread.1 ⟨fun _ _ => trivial, ?_, fun _ _ => trivial⟩
        fun _ _ => ⟨fun _ _ _ _ _ _ h => h, fun _ _ _ _ _ _ _ h => h⟩
      exact runSelect_plain_registry fun ref refs p hsources hplan =>
        h text p ⟨hperforms, ⟨ref, refs, hsources⟩, hplan⟩
  exact hkept.2

/-! ## Runs -/

/-- The request leaves the connectors as they are, and the name of each of its
definitions denotes the rows of that definition. -/
structure Isolated (cfg : Config) (s : AppState V) (r : Request V) : Prop where
  frame : (stepState cfg r s).exec.registry = s.exec.registry
  own : ∀ text p, Resolves r s text p → List.Forall₂
    (fun cte rows => (resolvedRegistry r s p).get cte.name = rows.map .memory)
    p.defs (cteRows r.env r.format p.recursive p.defs s.start.exec)

def NoneRuns (s : AppState V) (r : Request V) : Prop :=
  ∀ text p, Resolves r s text p →
    (∀ cte ∈ p.defs, s.exec.registry.get cte.name = none) ∧
      ¬ SomeRuns r.env r.format p.recursive p.defs s.start.exec

structure Started (s : AppState V) : Prop where
  external : OnlyExternal s.exec.registry
  pending : NoPending s

theorem length_cteRows (env : Env V) (format : Str) (recursive : Bool)
    (defs : List CteDef)
    (st : ExecState V) : (cteRows env format recursive defs st).length =
      defs.length := by
  induction defs generalizing st with
  | nil => rfl
  | cons cte defs ih =>
    rw [cteRows]
    split
    · simp [ih]
    · simp

theorem isolated_of_noneRuns (hs : Started s) (h : NoneRuns s r) :
    Isolated cfg s r := by
  have hsame : ∀ text p, Resolves r s text p →
      resolvedRegistry r s p = s.exec.registry :=
    fun text p hresolves => (registerCtes_idle (h text p hresolves).2).1
  constructor
  · by_cases hresolves : ∃ text p, Resolves r s text p
    · obtain ⟨text, p, hresolves⟩ := hresolves
      rw [stepState_resolves hs.pending hresolves, hsame text p hresolves]
    · refine stepState_unresolved hs.pending fun text p hresolves' => ?_
      exact hresolves ⟨text, p, hresolves'⟩
  · intro text p hresolves
    obtain ⟨hfree, hidle⟩ := h text p hresolves
    refine forall₂_iff_zip.mpr ⟨(length_cteRows ..).symm, ?_⟩
    intro cte rows hpair
    obtain ⟨hcte, hrows⟩ := of_mem_zip hpair
    rw [hsame text p hresolves, hfree cte hcte,
      (registerCtes_idle hidle).2 rows hrows]
    rfl

theorem noneRuns_of_isolated (hs : Started s) (h : Isolated cfg s r) :
    NoneRuns s r := by
  intro text p hresolves
  have hsame : resolvedRegistry r s p = s.exec.registry := by
    have hafter : (stepState cfg r s).exec.registry = resolvedRegistry r s p :=
      stepState_resolves hs.pending hresolves
    rw [← hafter, h.frame]
  have hfree : ∀ cte ∈ p.defs, s.exec.registry.get cte.name = none := by
    intro cte hcte
    obtain ⟨rows, -, hget⟩ :=
      Grouping.exists_of_forall₂ (h.own text p hresolves).flip hcte
    change (resolvedRegistry r s p).get cte.name = _ at hget
    rw [hsame] at hget
    cases rows with
    | none => exact hget
    | some rows => exact absurd hget (hs.external.get_ne_memory _ _)
  refine ⟨hfree, fun hruns => ?_⟩
  obtain ⟨cte, hcte, htaken⟩ := hruns.taken
  change Taken cte.name (resolvedRegistry r s p) at htaken
  rw [hsame, Taken, hfree cte hcte] at htaken
  cases htaken

theorem Started.step (hs : Started s) (h : Isolated cfg s r) :
    Started (stepState cfg r s) where
  external := by
    rw [h.frame]
    exact hs.external
  pending := stepState_noPending cfg r hs.pending

/-- In a run from the start of the server, every request leaves the connectors
as they are and sees its own definitions, exactly if no definition is run or
has the name of a connector. -/
theorem ctes_isolated_iff (hs : Started s) (requests : List (Request V)) :
    EveryStep (stepState cfg) (Isolated cfg) s requests ↔
      EveryStep (stepState cfg) NoneRuns s requests := by
  constructor
  · refine EveryStep.of_inv (I := Started) (fun s r hs h => ?_) hs
    exact ⟨noneRuns_of_isolated hs h, hs.step h⟩
  · refine EveryStep.of_inv (I := Started) (fun s r hs h => ?_) hs
    have hisolated : Isolated cfg s r := isolated_of_noneRuns hs h
    exact ⟨hisolated, hs.step hisolated⟩

theorem stepState_extends (cfg : Config) (r : Request V) (hs : NoPending s) :
    Extends s.exec.registry (stepState cfg r s).exec.registry := by
  by_cases h : ∃ text p, Resolves r s text p
  · obtain ⟨text, p, h⟩ := h
    have hkept : CallsOnly (Extends s.exec.registry) (fun _ => True)
        (p.defs.forM (registerCte r.env r.format p.recursive)) fun _ => True :=
      Spec.forM fun _ _ => registerCte_calls (G := fun _ => True) _
        (Extends.keptByRegister _)
        fun _ _ => trivial
    rw [stepState_resolves hs h]
    exact (hkept s.start.exec fun _ _ hds => hds).2.1
  · rw [stepState_unresolved hs fun text p hresolves => h ⟨text, p, hresolves⟩]
    exact fun _ _ hds => hds

/-- No request takes a source away or replaces it. -/
theorem sources_stay_registered (cfg : Config) (hs : NoPending s)
    (requests : List (Request V)) :
    Extends s.exec.registry
    (runSteps (stepState cfg) s requests).exec.registry := by
  refine (runSteps_inv (I := fun s' => NoPending s' ∧
    Extends s.exec.registry s'.exec.registry)
    (fun r _ s' hs' => ?_) ⟨hs, fun _ _ hds => hds⟩).2
  refine ⟨stepState_noPending cfg r hs'.1, fun ds connector hds => ?_⟩
  exact stepState_extends cfg r hs'.1 ds connector (hs'.2 ds connector hds)

end Requests

section Example

attribute [local instance] asciiUnicode integersOnly textCells

def askDefined (body : String) (now : Nat) : Request Str where
  env := { twoTables with now }
  body := { query := "WITH t AS (" ++ body.toList ++ ") SELECT n FROM t.t" }

theorem sources_stay_after_definition :
    letI := tableParser []
    Extends freshServer.exec.registry (runSteps (stepState {}) freshServer
      [askDefined "SELECT n FROM a.t" 0]).exec.registry := by
  have hs : NoPending freshServer := by simp [NoPending, freshServer]
  exact @sources_stay_registered _ _ _ _ (tableParser []) _ {} hs _

theorem second_definition_is_ignored :
    letI := tableParser []
    let s := stepState {} (askDefined "SELECT n FROM a.t" 0) freshServer
    (s.exec.registry.map (·.1)) = ["a", "b", "t"] ∧
      shown (serve {} (askDefined "SELECT n FROM b.t" 1) s) =
        some ⟨["n"], [[some "2"]]⟩ ∧
      shown (serve {} (askDefined "SELECT n FROM b.t" 1) freshServer) =
        some ⟨["n"], [[some "3"]]⟩ := by decide +kernel

/-- The source of the definition is not registered. -/
theorem ctes_isolated_unknown_source :
    letI := tableParser []
    EveryStep (stepState {}) (Isolated {}) freshServer
        [askDefined "SELECT n FROM c.t" 0] := by
  let := tableParser []
  have hstarted : Started freshServer :=
    ⟨by simp [OnlyExternal, freshServer, registeredAB], nofun⟩
  refine (ctes_isolated_iff hstarted _).mpr ⟨?_, trivial⟩
  rintro text p ⟨⟨hresolved, -, -⟩, -, hplan⟩
  cases hresolved
  have hp : parseCtes ("WITH t AS (SELECT n FROM c.t) SELECT n FROM t.t" : Str)
      = .ok (some ⟨false, [⟨"t", "SELECT n FROM c.t"⟩],
        "SELECT n FROM t.t"⟩) := by decide +kernel
  cases hplan.symm.trans hp
  refine ⟨?_, ?_⟩
  · intro cte hcte
    rw [mem_singleton.mp hcte]
    rfl
  rintro (hruns | ⟨-, hruns⟩)
  · cases hruns with
    | body hplain hrows => cases hrows
    | base hrec => exact absurd hrec (by decide)
  · exact hruns

end Example

end Fuse.Server
