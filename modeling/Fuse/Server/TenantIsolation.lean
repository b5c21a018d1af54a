import Fuse.Foundation.Runs
import Fuse.Server.Endpoint
import Fuse.Server.TopN

/-!
# Tenant isolation

Which connectors a request may reach.  The endpoint checks the sources of a
query once, after the common table expressions have run and before the `IN`
sub-selects do; statements are not checked at all.  `Confined` says what a
request must be like for that one check to be enough; in every run of such
requests each connector that is called is one its tenant may use.
-/

namespace Fuse.Server

open Foundation Fuse.Core Engine List
open Foundation.Traced (Spec)

section Allowed

/-- The tenant registry lets the caller use a datasource; a caller without
an identity may use none. -/
def allowed (cfg : Config) (tenant : Option Str) (ds : Str) : Bool :=
  match tenant with
  | none => false
  | some id => ds ∈ cfg.tenants.filterDatasources id [ds]

theorem allowed_of_refuseTenant {cfg : Config} {id : Str} {refs : List TableRef}
    (henabled : cfg.tenants.isEnabled = true)
    (h : refuseTenant cfg.tenants (some id) refs = none) :
    ∀ r ∈ refs, allowed cfg (some id) r.datasource = true := by
  intro r hr
  simp only [refuseTenant, henabled, if_true, Option.map_eq_none_iff,
    find?_eq_none] at h
  have hmem := h r hr
  simp only [decide_not, Bool.not_eq_true, Bool.not_eq_false',
    decide_eq_true_eq] at hmem
  simpa [allowed] using (TenantRegistry.mem_filterDatasources.mp hmem).2

end Allowed

section Condition

variable {V : Type} [ArrowKernels V] [Unicode] [FloatOps] [SqlParser]
  (cfg : Config) (r : Request V)

def MayUse (ds : Str) : Prop := allowed cfg r.tenantId ds = true

def Covered (refs : List TableRef) (ds : Str) : Prop :=
  MayUse cfg r ds ∨ ds ∈ refs.map (·.datasource)

/--
A query whose sources are `refs` when the definitions of its `WITH` are taken
off: the caller is known or may use all of them, the sub-selects are among
them, and whatever is put in their place names no others.
-/
structure MainConfined (query : Str) (refs : List TableRef) : Prop where
  identified : r.tenantId.isSome = true ∨ ∀ ref ∈ refs,
    MayUse cfg r ref.datasource
  subselects : ∀ subs, extractInSubqueries query = .ok subs →
    ∀ isq ∈ subs, Covered cfg r refs isq.datasource
  settled : ∀ settled, Settled r.format query refs settled →
    ∀ ref ∈ settled.2, Covered cfg r refs ref.datasource

/-- A query whose sources are `refs` when it comes in. -/
structure SelectConfined (text : Str) (refs : List TableRef) : Prop where
  definitions : ∀ p, parseCtes text = .ok (some p) → ∀ cte ∈ p.defs,
    ∀ ref, CteNames p.recursive cte ref →
      MayUse cfg r ref.datasource
  main : ∀ plan, parseCtes text = .ok plan → ∀ query refs',
    mainQuery plan text refs = .ok (query, refs') →
      MainConfined cfg r query refs'

def CommandConfined (s : AppState V) (text : Str) (command : Command) : Prop :=
  StatementGood (MayUse cfg r) s command ∧ (command = .select → ∀ refs,
      sourcesOf r.format text (plannedSources r s text) = .ok (.ok refs) →
        SelectConfined cfg r text refs)

def Confined (s : AppState V) : Prop :=
  ∀ text command, Performs r s text command →
    CommandConfined cfg r s text command

variable {cfg r}

omit [ArrowKernels V] [SqlParser] in
theorem Confined.of_command {s : AppState V} {command : Command} (text : Str)
    (htext : resolveText s.prepared r.body = .ok (.query text))
    (hcommand : classify r.env.uuid text = .ok command)
    (h : CommandConfined cfg r s text command) : Confined cfg r s := by
  intro text' command' hperforms
  have htext' := hperforms.resolved
  rw [htext] at htext'
  cases htext'
  have hcommand' := hperforms.classified
  rw [hcommand] at hcommand'
  cases hcommand'
  exact h

omit [ArrowKernels V] [SqlParser] in
theorem Confined.of_plain {s : AppState V} (text : Str)
    (hid : r.tenantId.isSome = true)
    (htext : resolveText s.prepared r.body = .ok (.query text))
    (hcommand : classify r.env.uuid text = .ok .select)
    (hctes : parseCtes text = .ok none)
    (hsubs : extractInSubqueries text = .ok []) : Confined cfg r s := by
  refine Confined.of_command text htext hcommand ⟨trivial, fun _ refs _ => ?_⟩
  refine ⟨fun p hp => ?_, fun plan hplan query refs' hmain => ?_⟩
  · rw [hctes] at hp
    cases hp
  · rw [hctes] at hplan
    cases hplan
    cases hmain
    refine ⟨.inl hid, fun subs hsubs' isq hisq => ?_, ?_⟩
    · rw [hsubs] at hsubs'
      cases hsubs'
      cases hisq
    · rintro settled ⟨subs, hsubs', hsettled⟩
      rw [hsubs] at hsubs'
      cases hsubs'
      cases hsettled
      exact fun ref href => .inr (mem_map_of_mem href)

end Condition

section Proof

variable {V : Type} [ArrowKernels V] [Unicode] [FloatOps] [SqlParser]
  {cfg : Config} {r : Request V}

omit [ArrowKernels V] [Unicode] [FloatOps] [SqlParser] in
theorem Covered.mayUse {refs : List TableRef} {ds : Str}
    (h : Covered cfg r refs ds)
    (hrefs : ∀ ref ∈ refs, MayUse cfg r ref.datasource) : MayUse cfg r ds := by
  rcases h with h | h
  · exact h
  · obtain ⟨ref, href, rfl⟩ := mem_map.mp h
    exact hrefs ref href

omit [ArrowKernels V] [FloatOps] [SqlParser] in
theorem MainConfined.checked {query : Str} {refs : List TableRef}
    (h : MainConfined cfg r query refs)
    (henabled : cfg.tenants.isEnabled = true)
    (hcheck : refuseTenant cfg.tenants r.tenantId refs = none) :
    ∀ ref ∈ refs, MayUse cfg r ref.datasource := by
  rcases h.identified with hid | hall
  · obtain ⟨id, hid⟩ := Option.isSome_iff_exists.mp hid
    rw [hid] at hcheck
    simp only [MayUse, hid]
    exact allowed_of_refuseTenant henabled hcheck
  · exact hall

theorem SelectConfined.calls {I : Registry V → Prop} {text : Str}
    {planned : Option (List TableRef)}
    (hinv : KeptByRegister I) (henabled : cfg.tenants.isEnabled = true)
    (h : ∀ refs, sourcesOf r.format text planned = .ok (.ok refs) →
      SelectConfined cfg r text refs) :
    CallsOnly I (MayUse cfg r) (runSelect cfg r text planned) fun _ =>
        True := by
  refine runSelect_calls (fun _ _ => hinv) (fun _ => trivial)
    (fun refs hrefs => (h refs hrefs).definitions) ?_
  intro refs hrefs plan hplan query refs' hquery hpassed
  have hmain := (h refs hrefs).main plan hplan query refs' hquery
  have hchecked := hmain.checked henabled hpassed
  refine (runSettled_calls ?_ ?_).weaken fun _ _ => trivial
  · exact fun subs hsubs isq hisq =>
      (hmain.subselects subs hsubs isq hisq).mayUse hchecked
  · exact fun settled hsettled ref href =>
      (hmain.settled settled hsettled ref href).mayUse hchecked

private theorem serve_isolated {s : AppState V}
    (henabled : cfg.tenants.isEnabled = true)
    (hs : Kept (fun _ _ _ => True) s) (h : Confined cfg r s) :
    (∀ c ∈ (serve cfg r s).trace, MayUse cfg r c.datasource) ∧
      Kept (fun _ _ _ => True) (stepState cfg r s) := by
  refine serve_keeps (fun _ _ _ _ _ h => h) hs ?_ ?_
  · exact fun text command hperforms => (h text command hperforms).1
  · intro text hperforms hread
    refine handleSelect_keeps hread.1 (P := fun _ => True) ?_ ?_
    · exact SelectConfined.calls (I := fun _ => True) (fun _ _ _ h => h)
        henabled ((h text _ hperforms).2 rfl) _ trivial
    · exact fun _ _ => ⟨fun _ _ _ _ _ _ h => h, fun _ _ _ _ _ _ _ h => h⟩

/--
In every run of requests that are each confined, every connector that is
called while a request is served is one its tenant may use.
-/
theorem tenant_isolation_of_confined {requests : List (Request V)}
    {s : AppState V}
    (henabled : cfg.tenants.isEnabled = true) (hs : s.transactions = [])
    (h : EveryStep (stepState cfg) (fun s r => Confined cfg r s) s requests) :
    EveryStep (stepState cfg) (fun s r => ∀ c ∈ (serve cfg r s).trace,
      MayUse cfg r c.datasource) s requests := by
  refine h.of_inv (I := Kept fun _ _ _ => True) ?_ ⟨?_, trivial⟩
  · intro s r hinv hr
    exact serve_isolated henabled hinv hr
  · intro t ht
    rw [hs] at ht
    cases ht

end Proof

section Example

attribute [local instance] asciiUnicode integersOnly textCells

def twoTeams : Config where
  tenants := [{ tenantId := "team_a", allowedDatasources := ["a"] },
    { tenantId := "team_b", allowedDatasources := ["b"] }]

def freshServer : AppState Str where
  exec := registeredAB
  resultCache := ⟨60, 500, []⟩
  planCache := ⟨300, 1000, []⟩

def everything (table : Str) : Query :=
  .mk (.select (.mk [.wildcard] (fromTable table) none (.expressions []) none))
    none none

def viewerRequest (team query : Str) : Request Str where
  env := twoTables
  auth := some ⟨team, .viewer⟩
  body := { query }

def copyFromB : Str := "INSERT INTO a.copy SELECT * FROM b.t"

/-- The source of an `INSERT` is read whoever asks for it. -/
theorem insert_reads_forbidden_source :
    letI := tableParser [("SELECT * FROM b.t", everything "b.t")]
    twoTeams.tenants.isEnabled = true ∧
      (serve twoTeams (viewerRequest "team_a" copyFromB) freshServer).trace =
        [.execute "b" { table := "t" }, .write "a" "copy"] ∧
      ¬ MayUse twoTeams (viewerRequest "team_a" copyFromB) "b" := by
  refine ⟨by decide, rfl, ?_⟩
  unfold MayUse
  decide

def ownSelect : Request Str := viewerRequest "team_a" "SELECT * FROM a.t"

def ownInsert : Request Str :=
  viewerRequest "team_b" "INSERT INTO b.copy SELECT * FROM b.t"

theorem ownInsert_confined (s : AppState Str) :
    letI := tableParser [("SELECT * FROM a.t", everything "a.t"),
      ("SELECT * FROM b.t", everything "b.t")]
    Confined twoTeams ownInsert s := by
  let := tableParser [("SELECT * FROM a.t", everything "a.t"),
    ("SELECT * FROM b.t", everything "b.t")]
  refine Confined.of_command "INSERT INTO b.copy SELECT * FROM b.t" rfl
    rfl ⟨⟨?_, ?_⟩,
    fun h => by cases h⟩
  · intro src hsrc
    have hb : firstSource "SELECT * FROM b.t" = .ok (some ⟨"b", "t"⟩) := rfl
    obtain rfl : ⟨"b", "t"⟩ = src := by
      change firstSource "SELECT * FROM b.t" = _ at hsrc
      rw [hb] at hsrc
      injection hsrc with hsrc
      injection hsrc
    unfold MayUse
    decide
  · unfold MayUse
    decide

theorem tenant_isolation_own_sources :
    letI := tableParser [("SELECT * FROM a.t", everything "a.t"),
      ("SELECT * FROM b.t", everything "b.t")]
    EveryStep (stepState twoTeams)
        (fun s r => ∀ c ∈ (serve twoTeams r s).trace,
          MayUse twoTeams r c.datasource) freshServer [ownSelect, ownInsert] ∧
      (serve twoTeams ownSelect freshServer).trace =
        [.execute "a" { table := "t" }] := by
  let := tableParser [("SELECT * FROM a.t", everything "a.t"),
    ("SELECT * FROM b.t", everything "b.t")]
  have hselect : Confined twoTeams ownSelect freshServer :=
    Confined.of_plain "SELECT * FROM a.t" rfl rfl rfl rfl rfl
  exact ⟨tenant_isolation_of_confined (by decide) rfl
    ⟨hselect, ownInsert_confined _, trivial⟩, by decide +kernel⟩

end Example

end Fuse.Server
