import Fuse.Server.ColumnSecurity

/-!
# Field policies, one after the other and batch by batch

`PolicyEngine::evaluate` updates a map of verdicts in place, policy by policy;
what is left of a field is the strictest outcome of the policies that bind the
user.  `ResultFilter::filter_batches` takes the positions of the columns from
the first batch, also where another batch has other columns there.
-/

namespace Fuse.Server

open Foundation Fuse.Core Engine List PolicyEngine

section Verdicts

/-! ## The map of verdicts -/

abbrev Verdicts := Str → Option FieldPolicy

def updateField (change : FieldPolicy → FieldPolicy) (verdicts : Verdicts)
    (field : Str) : Verdicts :=
  Function.update verdicts field ((verdicts field).map change)

def denyField : Verdicts → Str → Verdicts := updateField fun _ => .deny

def maskField : Verdicts → Str → Verdicts :=
  updateField fun verdict => if verdict = .deny then verdict else .mask

def applyPolicy (user : UserContext) (verdicts : Verdicts)
    (policy : PolicyConfig) : Verdicts :=
  if exempts policy user then verdicts
  else policy.maskFields.foldl maskField
    (policy.denyFields.foldl denyField verdicts)

def evaluateFields (engine : PolicyEngine) (datasource index : Str)
    (fields : List Str) (user : UserContext) : Verdicts :=
  (engine.matchingPolicies datasource index).foldl (applyPolicy user)
    fun field => if field ∈ fields then some .allow else none

def outcome (field : Str) (policy : PolicyConfig) : FieldPolicy :=
  if field ∈ policy.denyFields then .deny
  else if field ∈ policy.maskFields then .mask
  else .allow

def outcomes (user : UserContext) (field : Str) (policies : List PolicyConfig) :
    List FieldPolicy :=
  (policies.filter fun p => !exempts p user).map (outcome field)

structure IsStrictest (verdict : FieldPolicy) (among : List FieldPolicy) :
    Prop where
  occurs : verdict = .allow ∨ verdict ∈ among
  bounds : ∀ other ∈ among, strictness other ≤ strictness verdict

/-- What is true of `evaluate`, for all policies, fields and users. -/
structure StrictestJoin (engine : PolicyEngine) (datasource index : Str)
    (fields : List Str) (user : UserContext) : Prop where
  strictest : ∀ field ∈ fields, ∃ verdict,
    evaluateFields engine datasource index fields user field = some verdict ∧
      IsStrictest verdict (outcomes user field
        (engine.matchingPolicies datasource index))
  absent : ∀ field ∉ fields,
    evaluateFields engine datasource index fields user field = none
  permutes : ∀ engine' : PolicyEngine, engine'.Perm engine →
    evaluateFields engine' datasource index fields user =
      evaluateFields engine datasource index fields user
  tightens : ∀ before policy after, engine = before ++ after →
    ∀ field verdict, evaluateFields engine datasource index fields user field =
      some verdict →
      ∃ verdict', evaluateFields (before ++ policy :: after) datasource index
          fields user field = some verdict' ∧
        strictness verdict ≤ strictness verdict'

variable {user : UserContext} {field : Str} {verdict verdict' : FieldPolicy}
  {among among' : List FieldPolicy}

theorem foldl_updateField {change : FieldPolicy → FieldPolicy}
    (hagain : ∀ v, change (change v) = change v) (fields : List Str)
    (verdicts : Verdicts) : fields.foldl (updateField change) verdicts field =
      if field ∈ fields then (verdicts field).map change
      else verdicts field := by
  induction fields generalizing verdicts with
  | nil => rfl
  | cons first fields ih =>
    rw [foldl_cons, ih]
    by_cases hfirst : field = first
    · subst hfirst
      simp [updateField, Function.comp_def, hagain]
    · simp [updateField, hfirst]

theorem applyPolicy_apply (verdicts : Verdicts) (policy : PolicyConfig) :
    applyPolicy user verdicts policy field = (verdicts field).map fun verdict =>
      apply user field verdict policy := by
  unfold applyPolicy apply
  split
  · simp
  rw [maskField, foldl_updateField (by rintro (_ | _ | _) <;> rfl), denyField,
    foldl_updateField (by intro _; rfl)]
  cases verdicts field with
  | none => simp
  | some v =>
    by_cases hdeny : field ∈ policy.denyFields <;>
      by_cases hmask : field ∈ policy.maskFields <;>
        by_cases hv : v = .deny <;> simp [hdeny, hmask, hv]

theorem evaluateFields_eq (engine : PolicyEngine) (datasource index : Str)
    (fields : List Str) :
    evaluateFields engine datasource index fields user field =
      if field ∈ fields then some (engine.evaluate datasource index user field)
      else none := by
  have hfold : ∀ (policies : List PolicyConfig) (verdicts : Verdicts),
      policies.foldl (applyPolicy user) verdicts field = (verdicts field).map
      fun verdict =>
          policies.foldl (apply user field) verdict := by
    intro policies
    induction policies with
    | nil => simp
    | cons policy policies ih =>
      intro verdicts
      rw [foldl_cons, ih, applyPolicy_apply, Option.map_map]
      rfl
  rw [evaluateFields, hfold]
  split <;> rfl

/-! ## The strictest outcome -/

theorem IsStrictest.le (h : IsStrictest verdict among)
    (h' : IsStrictest verdict' among')
    (hsubset : among ⊆ among') : strictness verdict ≤ strictness verdict' := by
  rcases h.occurs with rfl | hmem
  · exact Nat.zero_le _
  · exact h'.bounds verdict (hsubset hmem)

theorem strictness_injective : Function.Injective strictness := by
  intro v v' h
  cases v <;> cases v' <;> first | rfl | cases h

theorem apply_of_binding (field : Str) {policy : PolicyConfig}
    (h : exempts policy user = false) (verdict : FieldPolicy) :
    apply user field verdict policy ∈ [verdict, outcome field policy] ∧
      strictness (apply user field verdict policy) =
        max (strictness verdict) (strictness (outcome field policy)) := by
  by_cases hdeny : field ∈ policy.denyFields <;>
    by_cases hmask : field ∈ policy.maskFields <;>
      cases verdict <;>
        simp [apply, outcome, h, hdeny, hmask, strictness]

theorem IsStrictest.apply (h : IsStrictest verdict among)
    (policy : PolicyConfig) :
    IsStrictest (apply user field verdict policy)
    (among ++ outcomes user field [policy]) := by
  cases hexempt : PolicyEngine.exempts policy user with
  | true => simpa [PolicyEngine.apply, outcomes, hexempt] using h
  | false =>
    have hout : outcomes user field [policy] = [outcome field policy] := by
      simp [outcomes, hexempt]
    obtain ⟨hmem, hmax⟩ := apply_of_binding field hexempt verdict
    rw [hout]
    constructor
    · rcases mem_pair.mp hmem with heq | heq <;> rw [heq]
      · exact h.occurs.imp_right (mem_append_left _)
      · exact .inr (by simp)
    · intro other hother
      rw [hmax]
      rcases mem_append.mp hother with hother | hother
      · exact (h.bounds other hother).trans (Nat.le_max_left _ _)
      · rw [mem_singleton.mp hother]
        exact Nat.le_max_right _ _

theorem evaluate_isStrictest (policies : List PolicyConfig) :
    IsStrictest (policies.foldl (apply user field) .allow)
    (outcomes user field policies) := by
  induction policies using List.reverseRecOn with
  | nil => exact ⟨.inl rfl, nofun⟩
  | append_singleton policies policy ih =>
    have hout : outcomes user field (policies ++ [policy]) =
        outcomes user field policies ++ outcomes user field [policy] := by
      simp [outcomes]
    rw [foldl_concat, hout]
    exact ih.apply policy

theorem evaluate_le (user : UserContext) (field : Str)
    {engine engine' : PolicyEngine}
    (h : engine ⊆ engine') (datasource index : Str) :
    strictness (engine.evaluate datasource index user field) ≤
      strictness (engine'.evaluate datasource index user field) := by
  refine (evaluate_isStrictest _).le (evaluate_isStrictest _) ?_
  refine map_subset _ fun policy hpolicy => ?_
  rw [matchingPolicies, mem_filter, mem_filter] at *
  exact ⟨⟨h hpolicy.1.1, hpolicy.1.2⟩, hpolicy.2⟩

/-- Policy evaluation is the strictest outcome, whatever the order. -/
theorem evaluate_strictestJoin (engine : PolicyEngine) (datasource index : Str)
    (fields : List Str) (user : UserContext) :
    StrictestJoin engine datasource index fields user where
  strictest field hfield := by
    rw [evaluateFields_eq, if_pos hfield]
    exact ⟨_, rfl, evaluate_isStrictest _⟩
  absent field hfield := by rw [evaluateFields_eq, if_neg hfield]
  permutes engine' hperm := by
    funext field
    rw [evaluateFields_eq, evaluateFields_eq]
    have hle := evaluate_le user field hperm.subset datasource index
    have hge := evaluate_le user field hperm.symm.subset datasource index
    rw [strictness_injective (hle.antisymm hge)]
  tightens before policy after hengine field verdict hverdict := by
    subst hengine
    rw [evaluateFields_eq] at hverdict ⊢
    split at hverdict
    · rename_i hfield
      cases hverdict
      refine ⟨_, if_pos hfield, evaluate_le user field ?_ _ _⟩
      exact append_subset.mpr ⟨subset_append_left _ _, fun p hp =>
        mem_append_right _ (mem_cons_of_mem _ hp)⟩
    · cases hverdict

end Verdicts

section Batches

variable {V : Type} [ArrowKernels V] {engine : PolicyEngine} {ds table : Str}
  {user : UserContext} {batches shown : List (RecordBatch (Sourced V))}

/-! ## Batches of different schemas -/

def OwnCells (ds table : Str) (batches : List (RecordBatch (Sourced V))) :
    Prop :=
  ∀ b ∈ batches, ∀ row ∈ b.rows, ∀ (i : Nat) (field : Field) (v : Sourced V),
    b.schema[i]? = some field → row[i]? = some (some v) →
    v.origins = [⟨ds, table, field.name⟩]

def Hidden (engine : PolicyEngine) (user : UserContext)
    (batches : List (RecordBatch (Sourced V))) : Prop :=
  ∀ b ∈ batches, ∀ row ∈ b.rows, ∀ v, some v ∈ row → ∀ o ∈ v.origins,
    o.verdict engine user ≠ .allow → ArrowKernels.display v = maskText

/-- Where the first batch has a column that is allowed, every batch has one, up
to columns whose cells are null or read like the mask. -/
def PositionsAgree (verdict : Str → FieldPolicy)
    (batches : List (RecordBatch (Sourced V))) : Prop :=
  ∀ first ∈ batches.head?, ∀ b ∈ batches, ∀ (i : Nat) (kept own : Field),
    first.schema[i]? = some kept → b.schema[i]? = some own →
    verdict kept.name = .allow → verdict own.name ≠ .allow →
      ∀ row ∈ b.rows, ∀ v, row[i]? = some (some v) →
        ArrowKernels.display v = maskText

private theorem mem_filterRow {verdict : Str → FieldPolicy} {schema : Schema}
    {row : Row V} {v : V} :
    some v ∈ filterRow (keptFields verdict schema) row ↔
      ∃ (i : Nat) (kept : Field) (w : V), schema[i]? = some kept ∧
      row[i]? = some (some w) ∧ (verdict kept.name = .allow ∧ v = w ∨
          verdict kept.name = .mask ∧
          v = ArrowKernels.ofText [w] maskText) := by
  rw [filterRow, mem_map]
  constructor
  · rintro ⟨⟨i, kept, policy⟩, hkept, hcell⟩
    obtain ⟨hfield, hshown, rfl⟩ := mem_keptFields.mp hkept
    dsimp only at hcell
    split at hcell
    · rename_i hmask
      obtain ⟨w, hw, rfl⟩ := Option.map_eq_some_iff.mp hcell
      exact ⟨i, kept, w, hfield, Option.join_eq_some_iff.mp hw,
        .inr ⟨hmask, rfl⟩⟩
    · refine ⟨i, kept, v, hfield, Option.join_eq_some_iff.mp hcell,
        .inl ⟨?_, rfl⟩⟩
      cases hverdict : verdict kept.name <;> simp_all
  · rintro ⟨i, kept, w, hfield, hw, hcase⟩
    refine ⟨(i, kept, verdict kept.name),
      mem_keptFields.mpr ⟨hfield, ?_, rfl⟩, ?_⟩
    · rcases hcase with ⟨hallow, -⟩ | ⟨hmask, -⟩ <;> simp [*]
    · rcases hcase with ⟨hallow, rfl⟩ | ⟨hmask, rfl⟩ <;> simp [*]

/-- What the filter returns hides the denied and the masked columns of all
batches exactly when their positions agree with those of the first. -/
theorem filterBatches_hidden_iff (hdisplay : DisplaysText V)
    (hown : OwnCells ds table batches)
    (h : filterBatches engine batches ds table user = .ok shown) :
    Hidden engine user shown ↔ PositionsAgree
    (engine.evaluate ds table user) batches := by
  cases batches with
  | nil =>
    cases h
    exact iff_of_true nofun nofun
  | cons first rest =>
    rw [filterBatches] at h
    constructor
    · intro hhidden first' hfirst b hb i kept own hkept hfield hallow hsecret
        row hrow v hv
      cases hfirst
      obtain ⟨b', hb', hfiltered⟩ := Fallible.ok_of_mapM_ok h b hb
      split at hfiltered
      · cases hfiltered
      have hrows := (RecordBatch.tryNew_parts hfiltered).2.1
      refine hhidden b' hb' _ (hrows ▸ mem_map_of_mem hrow) v
        (mem_filterRow.mpr ⟨i, kept, v,
        hkept, hv, .inl ⟨hallow, rfl⟩⟩) ⟨ds, table, own.name⟩ ?_ hsecret
      rw [hown b hb row hrow i own v hfield hv]
      exact mem_singleton_self _
    · intro hagree b' hb' row' hrow' v hv o ho hsecret
      obtain ⟨b, hb, hfiltered⟩ := Fallible.mem_of_mapM_ok h b' hb'
      split at hfiltered
      · cases hfiltered
      rw [(RecordBatch.tryNew_parts hfiltered).2.1] at hrow'
      obtain ⟨row, hrow, rfl⟩ := mem_map.mp hrow'
      obtain ⟨i, kept, w, hkept, hw, ⟨hallow, rfl⟩ | ⟨-, rfl⟩⟩ :=
        mem_filterRow.mp hv
      · have hi := (List.getElem?_eq_some_iff.mp hw).1
        have hfield := List.getElem?_eq_getElem
          (RecordBatch.length_of_mem hrow ▸ hi)
        rw [hown b hb row hrow i _ v hfield hw, mem_singleton] at ho
        subst ho
        exact hagree first rfl b hb i kept _ hkept hfield hallow hsecret row
          hrow v hw
      · exact hdisplay _ _

end Batches

section Example

attribute [local instance] asciiUnicode integersOnly textCells

def sourcedBatch (names : List Str) : RecordBatch (Sourced Str) where
  schema := names.map fun n => ⟨n, .utf8, true⟩
  rows := [names.map fun n => some ⟨n ++ ['1'], [⟨"b", "t", n⟩]⟩]
  fits := by
    rintro row (_ | ⟨_, ⟨⟩⟩)
    exact rowFits_nullable (by simp) (by simp)

theorem sourcedBatch_own {batches : List (RecordBatch (Sourced Str))}
    (h : ∀ b ∈ batches, ∃ names, b = sourcedBatch names) :
    OwnCells "b" "t" batches := by
  intro b hb row hrow i field v hfield hv
  obtain ⟨columns, rfl⟩ := h b hb
  obtain rfl := mem_singleton.mp hrow
  rw [sourcedBatch, getElem?_map, Option.map_eq_some_iff] at hfield
  rw [getElem?_map, Option.map_eq_some_iff] at hv
  obtain ⟨n, hn, rfl⟩ := hfield
  obtain ⟨n', hn', hv⟩ := hv
  cases hn.symm.trans hn'
  cases hv
  rfl

def sourcedPeople : RecordBatch (Sourced Str) := sourcedBatch ["name", "ssn"]

def anyUser : UserContext := someCaller.userContext

def filteredCells (batches : List (RecordBatch (Sourced Str))) :
    Option (List (List (Row Str))) :=
  (Except.toOption (filterBatches deniedInB batches "b" "t" anyUser)).map
    (List.map fun b => b.rows.map (List.map (Option.map (·.value))))

/-- The second batch has its columns in another order: the denied one is
returned. -/
theorem denied_column_at_kept_position :
    deniedInB.evaluate "b" "t" anyUser "ssn" = .deny ∧
      filteredCells [sourcedPeople, sourcedBatch ["ssn", "name"]] =
        some [[[some "name1".toList]], [[some "ssn1".toList]]] := by
        decide +kernel

theorem same_order_hides_denied : ∃ shown,
    filterBatches deniedInB [sourcedPeople, sourcedPeople] "b" "t" anyUser =
      .ok shown ∧ Hidden deniedInB anyUser shown := by
  obtain ⟨shown, hshown⟩ : ∃ shown, filterBatches deniedInB
      [sourcedPeople, sourcedPeople] "b" "t" anyUser = .ok shown := ⟨_, rfl⟩
  refine ⟨shown, hshown, (filterBatches_hidden_iff (fun _ _ => rfl)
    (sourcedBatch_own fun b hb => ⟨_, by simpa [sourcedPeople] using hb⟩)
    hshown).mpr ?_⟩
  intro first hfirst b hb i kept own hkept hown hallow hsecret
  cases hfirst
  obtain rfl : b = sourcedPeople := by simpa using hb
  cases hkept.symm.trans hown
  exact absurd hallow hsecret

end Example

end Fuse.Server
