import Fuse.Foundation.Runs
import Fuse.Server.Endpoint

/-!
# Requests that ask the same

Two requests agree when they ask the same text, of the same tenant and role,
for the same page and range, and find the same answers outside the server.
The pipeline of a query gives both the same result, with a cached plan or
without one.
-/

namespace Fuse.Server

open Foundation Fuse.Core Engine List Traced
open Foundation.Traced (Spec SpecAt)

structure Question (V : Type) where
  request : Request V
  text : Str

section Agreement

variable {V : Type} [ArrowKernels V] [Unicode] [FloatOps] [SqlParser]

structure AsksAgain (q : Question V) (r : Request V) (text : Str) : Prop where
  text : text = q.text
  format : r.format = q.request.format
  page : r.body.page = q.request.body.page
  range : r.range = q.request.range

structure SameCaller (caller r : Request V) : Prop where
  tenant : r.tenantId = caller.tenantId
  user : r.userContext = caller.userContext
  env : r.env = { caller.env with
    now := r.env.now
    uuid := r.env.uuid
    traceId := r.env.traceId }

structure Agrees (q : Question V) (r : Request V) (text : Str) : Prop extends
  AsksAgain q r text, SameCaller q.request r

namespace Agrees

variable {cfg : Config} {q : Question V} {r : Request V} {text : Str}

private theorem runSettled_eq (h : Agrees q r text) (query : Str)
    (refs : List TableRef) :
    runSettled r query refs = runSettled q.request query refs := by
  unfold runSettled
  rw [h.format, h.range, h.env]
  rfl

theorem runChecked_eq (h : Agrees q r text) (query : Str)
    (refs : List TableRef) :
    runChecked cfg r query refs = runChecked cfg q.request query refs := by
  unfold runChecked
  rw [h.tenant, h.runSettled_eq]

omit [SqlParser] in
theorem pageOf_eq (h : Agrees q r text) (clauses : PlanClauses)
    (ex : Execution V) :
    pageOf cfg r clauses ex = pageOf cfg q.request clauses ex := by
  unfold pageOf
  rw [h.user, h.page, h.env]
  rfl

omit [ArrowKernels V] [FloatOps] [SqlParser] in
theorem refuseSize_eq (h : Agrees q r text) (rows bytes : Nat) :
    refuseSize cfg r rows bytes = refuseSize cfg q.request rows bytes := by
  unfold refuseSize
  rw [h.tenant, h.env]

omit [ArrowKernels V] [FloatOps] [SqlParser] in
theorem resultBytes_eq (h : Agrees q r text) :
    r.env.resultBytes = q.request.env.resultBytes := by
  rw [h.env]

end Agrees

end Agreement

section Plans

variable {V : Type} [ArrowKernels V] [Unicode] [FloatOps] [SqlParser]

omit [Unicode] [FloatOps] [SqlParser] in
theorem orElse_again {α : Type} {x : Fallible α} {a b : α}
    (h : Fallible.orElse x a = .ok b) : Fallible.orElse x b = .ok b := by
  rcases x with (_ | _) | c
  · cases h
  · rfl
  · exact h

variable {refs : List TableRef} {st : ExecState V} {r : Request V}
  {ex : Execution V} {cfg : Config} {planned : Option (List TableRef)}

variable {env : Env V} {query : Str} {text : Str}

theorem resolveInSubqueries_again {format query : Str}
    {settled : Str × List TableRef}
    (h : (resolveInSubqueries env format query refs st).result =
      .ok settled) : resolveInSubqueries env format query settled.2 st =
      resolveInSubqueries env format query refs st := by
  unfold resolveInSubqueries at h ⊢
  obtain ⟨subs, hsubs, h⟩ := bind_result_iff.mp h
  obtain ⟨resolved, hresolved, h⟩ := bind_result_iff.mp h
  rw [bind_ok hsubs, bind_ok hsubs, bind_ok hresolved, bind_ok hresolved]
  by_cases hempty : subs.isEmpty = true
  · rw [if_pos hempty] at h
    cases h
    rfl
  rw [if_neg hempty] at h
  obtain ⟨newRefs, hrefs, h⟩ := bind_result_iff.mp h
  cases h
  simp only [if_neg hempty]
  rw [show Fallible.orElse (parseSources format resolved) newRefs =
    Fallible.orElse (parseSources format resolved) refs from
      (orElse_again hrefs).trans hrefs.symm]

theorem runSettled_ok (h : (runSettled r query refs st).result = .ok (.ok ex)) :
    (resolveInSubqueries r.env r.format query refs st).result =
      .ok (ex.query, ex.refs) ∧
      ∃ st', (executeRefs r.env ex.query r.format ex.refs r.range st').result =
        .ok ex.fed := by
  obtain ⟨settled, hsettled, h⟩ := bind_result_iff.mp h
  obtain ⟨result, hresult, h⟩ := bind_result_iff.mp h
  cases hint : r.env.interrupted with
  | some message =>
    rw [hint] at h
    cases h
  | none =>
    cases result with
    | error message =>
      rw [hint] at h
      cases h
    | ok fed =>
      rw [hint] at h
      cases h
      exact ⟨hsettled, _, Fallible.of_catchError_ok hresult⟩

theorem executeRefs_ne_nil {query format : Str} {range : Option RangeParams}
    {fed : FederatedResult V}
    (h : (executeRefs env query format refs range st).result = .ok fed) :
    refs ≠ [] := by
  rintro rfl
  unfold executeRefs at h
  dsimp only at h
  split at h
  · cases h
  · cases h

theorem runSettled_again
    (h : (runSettled r query refs st).result = .ok (.ok ex)) :
    runSettled r query ex.refs st = runSettled r query refs st :=
  bind_congr_at (resolveInSubqueries_again (runSettled_ok h).1) _

omit [ArrowKernels V] [Unicode] [FloatOps] [SqlParser] in
theorem refuse_of_covered {registry : Registry V} {tenants : TenantRegistry}
    {tenant : Option Str} {refs refs' : List TableRef}
    (h : (refuseUnknown registry refs).or (refuseTenant tenants tenant refs) =
      none)
    (hrefs : ∀ ref ∈ refs', ref.datasource ∈ refs.map (·.datasource)) :
    (refuseUnknown registry refs').or (refuseTenant tenants tenant refs') =
      none := by
  obtain ⟨hknown, htenant⟩ := Option.or_eq_none_iff.mp h
  refine Option.or_eq_none_iff.mpr ⟨?_, ?_⟩
  · simp only [refuseUnknown, Option.map_eq_none_iff, find?_eq_none] at hknown ⊢
    intro ref href
    obtain ⟨ref', href', heq⟩ := mem_map.mp (hrefs ref href)
    rw [← heq]
    exact hknown ref' href'
  · cases tenant with
    | none => rfl
    | some id =>
      simp only [refuseTenant] at htenant ⊢
      split at htenant
      · rename_i henabled
        simp only [Option.map_eq_none_iff, find?_eq_none, decide_not,
          Bool.not_eq_true, Bool.not_eq_false', decide_eq_true_eq] at htenant
        rw [if_pos henabled]
        simp only [Option.map_eq_none_iff, find?_eq_none, decide_not,
          Bool.not_eq_true, Bool.not_eq_false', decide_eq_true_eq]
        intro ref href
        obtain ⟨ref', href', heq⟩ := mem_map.mp (hrefs ref href)
        refine TenantRegistry.mem_filterDatasources.mpr
          ⟨mem_map_of_mem href, ?_⟩
        have := htenant ref' href'
        rw [← heq]
        exact (TenantRegistry.mem_filterDatasources.mp this).2
      · next henabled => rw [if_neg henabled]

theorem runChecked_passed (h : (refuseUnknown st.registry refs).or
      (refuseTenant cfg.tenants r.tenantId refs) = none) :
    runChecked cfg r query refs st = runSettled r query refs st := by
  rw [runChecked, Exec.registry_bind, h]

theorem runChecked_ok
    (h : (runChecked cfg r query refs st).result = .ok (.ok ex)) :
    (refuseUnknown st.registry refs).or
    (refuseTenant cfg.tenants r.tenantId refs) = none ∧
      (runSettled r query refs st).result = .ok (.ok ex) := by
  cases hrefuse : (refuseUnknown st.registry refs).or
      (refuseTenant cfg.tenants r.tenantId refs) with
  | none => exact ⟨rfl, by rwa [runChecked_passed hrefuse] at h⟩
  | some reply =>
    rw [runChecked, Exec.registry_bind, hrefuse] at h
    cases h

theorem resolveCtes_plain {format query : Str} (h : parseCtes query = .ok none)
    (st : ExecState V) :
    resolveCtes env format query refs st = ⟨.ok (query, refs), st, []⟩ := by
  unfold resolveCtes Exec.liftFallible
  rw [lift_bind_ok h]
  rfl

theorem runSelect_plain (hctes : parseCtes text = .ok none)
    (hsources : sourcesOf r.format text planned = .ok (.ok refs))
    (hrefs : refs ≠ []) (st : ExecState V) : runSelect cfg r text planned st =
      runChecked cfg r text refs st := by
  unfold runSelect Exec.liftFallible
  rw [lift_bind_ok hsources]
  cases refs with
  | nil => exact absurd rfl hrefs
  | cons ref refs =>
    have hresolved : resolveCtes r.env r.format text (ref :: refs) st =
        (pure (text, ref :: refs) : Exec V _) st :=
      resolveCtes_plain hctes st
    exact bind_congr_at hresolved _

theorem Agrees.runSelect_eq {q : Question V} (h : Agrees q r text)
    (hctes : parseCtes text = .ok none) (planned : Option (List TableRef))
    (st : ExecState V) : runSelect cfg r text planned st =
      runSelect cfg q.request q.text planned st := by
  have hctes' : parseCtes q.text = .ok none := h.text ▸ hctes
  have hsources : sourcesOf q.request.format q.text planned =
      sourcesOf r.format text planned := by rw [h.format, h.text]
  cases hparsed : sourcesOf r.format text planned with
  | error e =>
    unfold runSelect Exec.liftFallible
    rw [lift_bind_error hparsed, lift_bind_error (hsources.trans hparsed)]
  | ok parsed =>
    rcases parsed with message | _ | ⟨ref, refs⟩
    · unfold runSelect Exec.liftFallible
      rw [lift_bind_ok hparsed, lift_bind_ok (hsources.trans hparsed)]
    · unfold runSelect Exec.liftFallible
      rw [lift_bind_ok hparsed, lift_bind_ok (hsources.trans hparsed)]
    · rw [runSelect_plain hctes hparsed (cons_ne_nil _ _),
        runSelect_plain hctes'
        (hsources.trans hparsed) (cons_ne_nil _ _), h.runChecked_eq, h.text]

theorem runSelect_ok (hctes : parseCtes text = .ok none)
    (h : (runSelect cfg r text planned st).result = .ok (.ok ex)) :
    ∃ refs, sourcesOf r.format text planned = .ok (.ok refs) ∧ refs ≠ [] ∧
      (runChecked cfg r text refs st).result = .ok (.ok ex) := by
  obtain ⟨parsed, hparsed, hrest⟩ := bind_result_iff.mp h
  change sourcesOf r.format text planned = _ at hparsed
  rcases parsed with message | refs
  · cases hrest
  cases refs with
  | nil => cases hrest
  | cons ref refs =>
    refine ⟨_, hparsed, cons_ne_nil _ _, ?_⟩
    rwa [runSelect_plain hctes hparsed (cons_ne_nil _ _)] at h

/--
With the sources of the plan that is remembered for it, a text gives the
result that it gives without a plan.
-/
theorem runSelect_planned (hctes : parseCtes text = .ok none)
    (hsettled : ∀ refs, parseSources r.format text = .ok refs → ∀ settled,
      Settled r.format text refs settled → ∀ ref ∈ settled.2,
      ref.datasource ∈ refs.map
      (·.datasource)) (h : (runSelect cfg r text none st).result =
        .ok (.ok ex)) :
    (runSelect cfg r text (some ex.refs) st).result = .ok (.ok ex) := by
  obtain ⟨refs, hsources, -, hrun⟩ := runSelect_ok hctes h
  obtain ⟨hrefuse, hrun⟩ := runChecked_ok hrun
  obtain ⟨hresolved, st', hexecute⟩ := runSettled_ok hrun
  have hset : Settled r.format text refs (ex.query, ex.refs) :=
    (resolveInSubqueries_calls (I := fun _ => True)
      (G := fun _ => True) r.env (by simp) st trivial).2.2 _ hresolved
  rw [runSelect_plain hctes rfl (executeRefs_ne_nil hexecute), runChecked_passed
    (refuse_of_covered hrefuse
      (hsettled refs (Fallible.of_catchError_ok hsources) _ hset)),
    runSettled_again hrun, hrun]

theorem runSelect_plain_calls {I : Registry V → Prop} {G : Str → Prop}
    (hgood : ∀ ds, G ds) (hctes : parseCtes text = .ok none) :
    CallsOnly I G (runSelect cfg r text planned) fun _ => True := by
  have hnone : ∀ p, parseCtes text ≠ .ok (some p) := by
    intro p hp
    rw [hctes] at hp
    cases hp
  refine runSelect_calls (fun p hp => absurd hp (hnone p))
    (fun _ => trivial) (fun _ _ p hp => absurd hp (hnone p)) ?_
  intro refs _ plan _ query refs' _ _
  refine (runSettled_calls ?_ ?_).weaken fun _ _ => trivial
  · exact fun _ _ isq _ => hgood isq.datasource
  · exact fun _ _ ref _ => hgood ref.datasource

end Plans

end Fuse.Server
