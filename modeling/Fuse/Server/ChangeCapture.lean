import Fuse.Server.RefreshScheduler
import Mathlib.Data.Finset.Basic
import Mathlib.Data.Finset.Union

/-!
# Change capture

`fuse-server/src/cdc.rs` maps changes of sources to the views that depend on
them.  `trigger_refresh` takes the pending views and resets the time of their
last refresh, view by view, while the scheduler goes on: an execution that
started before the change may be applied after the reset.
-/

namespace Fuse.Server

open Foundation Fuse.Core Engine List

/-! ## The tracker -/

inductive ChangeType where
  | insert | update | delete | schemaChange
  deriving DecidableEq, Repr

structure ChangeEvent where
  datasource : Str
  table : Str
  changeType : ChangeType
  timestamp : Nat
  deriving DecidableEq, Repr

structure CdcTracker where
  dependencies : AList (fun _ : Str => Finset (Str × Str)) := ∅
  events : List ChangeEvent := []
  pendingRefresh : Finset Str := ∅
  maxEvents : Nat

namespace CdcTracker

def registerView (viewName : Str) (sources : Finset (Str × Str))
    (tracker : CdcTracker) : CdcTracker :=
  { tracker with
    dependencies := tracker.dependencies.insert viewName sources }

def affected (source : Str × Str) (tracker : CdcTracker) : List Str :=
  (tracker.dependencies.entries.filter fun e => source ∈ e.2).map (·.1)

def recordChange (event : ChangeEvent) (tracker : CdcTracker) :
    List Str × CdcTracker :=
  let affected := tracker.affected (event.datasource, event.table)
  let events := tracker.events ++ [event]
  (affected, { tracker with
    pendingRefresh := tracker.pendingRefresh ∪ affected.toFinset
    events := events.drop (events.length - tracker.maxEvents) })

def takePending (tracker : CdcTracker) : Finset Str × CdcTracker :=
  (tracker.pendingRefresh, { tracker with pendingRefresh := ∅ })

def DependsOn (tracker : CdcTracker) (name : Str) (source : Str × Str) : Prop :=
  ∃ sources, tracker.dependencies.lookup name = some sources ∧ source ∈ sources

instance (tracker : CdcTracker) (name : Str) (source : Str × Str) :
    Decidable (tracker.DependsOn name source) :=
  match h : tracker.dependencies.lookup name with
  | none => isFalse fun ⟨_, hsources, _⟩ => by cases h.symm.trans hsources
  | some sources =>
    if hmem : source ∈ sources then isTrue ⟨sources, h, hmem⟩
    else isFalse fun ⟨_, hsources, hmem'⟩ =>
      hmem (Option.some.inj (h.symm.trans hsources) ▸ hmem')

theorem mem_affected {tracker : CdcTracker} {source : Str × Str} {name : Str} :
    name ∈ tracker.affected source ↔ tracker.DependsOn name source := by
  unfold affected DependsOn
  constructor
  · intro h
    obtain ⟨⟨_, sources⟩, he, rfl⟩ := mem_map.mp h
    obtain ⟨hentry, hmem⟩ := mem_filter.mp he
    exact ⟨sources, AList.mem_lookup_iff.mpr hentry, of_decide_eq_true hmem⟩
  · rintro ⟨sources, hlookup, hmem⟩
    refine mem_map.mpr ⟨⟨name, sources⟩, mem_filter.mpr ⟨?_, ?_⟩, rfl⟩
    · exact AList.mem_lookup_iff.mp hlookup
    · exact decide_eq_true hmem

end CdcTracker

/-! ## The steps -/

structure RefreshTrigger where
  names : Finset Str
  due : Str → Option Nat

/-- The views and the tracker.  The steps are counted, and of each view it is
watched when a source last changed, which of these changes a complete call of
`trigger_refresh` has come after, which changes were recorded before the last
reset, and when the execution started that its contents come from. -/
structure CaptureState (V : Type) where
  views : ViewsState V := {}
  tracker : CdcTracker := { maxEvents := 10000 }
  triggers : AList (fun _ : Nat => RefreshTrigger) := ∅
  steps : Nat := 0
  started : Option Nat := none
  changed : Str → Option Nat := fun _ => none
  triggered : Str → Option Nat := fun _ => none
  reset : Str → Option Nat := fun _ => none
  produced : Str → Option Nat := fun _ => none

inductive CaptureEvent (V : Type) where
  | registerView (name : Str) (sources : Finset (Str × Str))
  | change (event : ChangeEvent)
  | triggerBegin (id : Nat)
  | triggerReset (id : Nat) (name : Str)
  | triggerEnd (id : Nat)
  /-- The query of the snapshot is handed to the engine; `execute` is when it
  returns. -/
  | start
  | view (e : ViewEvent V)

def MaterializedView.resetLastRefresh {V : Type} (view : MaterializedView V) :
    MaterializedView V :=
  { view with lastRefresh := none }

namespace CaptureState

variable {V : Type}

def recordChange (event : ChangeEvent) (s : CaptureState V) : CaptureState V :=
  { s with
    tracker := (s.tracker.recordChange event).2
    changed := fun name =>
      if s.tracker.DependsOn name (event.datasource, event.table) then
        some s.steps
      else s.changed name }

def beginTrigger (id : Nat) (s : CaptureState V) : CaptureState V :=
  match s.triggers.lookup id with
  | some _ => s
  | none =>
    { s with
      tracker := s.tracker.takePending.2
      triggers := s.triggers.insert id
        { names := s.tracker.takePending.1, due := s.changed } }

def resetView (id : Nat) (name : Str) (s : CaptureState V) : CaptureState V :=
  match s.triggers.lookup id with
  | none => s
  | some trigger =>
    if name ∈ trigger.names then
      { s with
        views := { s.views with
          views := s.views.views.write name MaterializedView.resetLastRefresh }
        triggers := s.triggers.insert id
          { trigger with names := trigger.names.erase name }
        reset := Function.update s.reset name (s.changed name) }
    else s

def endTrigger (id : Nat) (s : CaptureState V) : CaptureState V :=
  match s.triggers.lookup id with
  | none => s
  | some trigger =>
    if trigger.names = ∅ then
      { s with triggers := s.triggers.erase id, triggered := trigger.due }
    else s

def startExecution (s : CaptureState V) : CaptureState V :=
  match s.views.job, s.started with
  | some ⟨_, none⟩, none => { s with started := some s.steps }
  | _, _ => s

def applyResult [ArrowKernels V] (s : CaptureState V) : CaptureState V :=
  match s.views.job with
  | some ⟨snapshot, some result⟩ =>
    { s with
      views := s.views.step .apply
      started := none
      produced := match result with
        | .ok _ => Function.update s.produced snapshot.name s.started
        | .error _ => s.produced }
  | _ => s

def viewStep [ArrowKernels V] (e : ViewEvent V) (s : CaptureState V) :
    CaptureState V :=
  match e with
  | .execute result =>
    if s.started.isSome then { s with views := s.views.step (.execute result) }
    else s
  | .apply => s.applyResult
  | e => { s with views := s.views.step e }

def step [ArrowKernels V] (e : CaptureEvent V) (s : CaptureState V) :
    CaptureState V :=
  let next := match e with
    | .registerView name sources =>
      { s with tracker := s.tracker.registerView name sources }
    | .change event => s.recordChange event
    | .triggerBegin id => s.beginTrigger id
    | .triggerReset id name => s.resetView id name
    | .triggerEnd id => s.endTrigger id
    | .start => s.startExecution
    | .view e => s.viewStep e
  { next with steps := s.steps + 1 }

/-- If a change of a source of the view was recorded before a call of
`trigger_refresh` that is complete, the view is stale or its contents come
from an execution that started after the change. -/
def NotificationKept (name : Str) (s : CaptureState V) : Prop :=
  ∀ entry c, s.views.views.get name = some entry → s.triggered name = some c →
      entry.view.needsRefresh s.views.clock = true ∨ ∃ p,
      s.produced name = some p ∧ c < p

/-- Only the scheduler refreshes: there are no `REFRESH` statements. -/
def SchedulerOnly : CaptureEvent V → Prop
  | .view (.statementBegin _ _) | .view (.statementExecute _ _)
  | .view (.statementApply _) => False
  | _ => True

/-- Calls of `trigger_refresh` do not overlap, and when one resets a view no
execution for the view is in flight that started before its latest change. -/
def ResetsAfterExecutions (s : CaptureState V) : CaptureEvent V → Prop
  | .triggerBegin _ => ∀ id, s.triggers.lookup id = none
  | .triggerReset _ name =>
    ∀ job start c, s.views.job = some job → job.snapshot.name = name →
      s.started = some start → s.changed name = some c → c < start
  | _ => True

/-! ## What the tracker's steps keep -/

def RecordedSince (s : CaptureState V) (name : Str) (c : Nat) : Prop :=
  ∃ latest, s.changed name = some latest ∧ c ≤ latest

def ResetSince (s : CaptureState V) (name : Str) (c : Nat) : Prop :=
  ∃ latest, s.reset name = some latest ∧ c ≤ latest

structure Tracked (bound : Nat) (s : CaptureState V) : Prop where
  changed : ∀ name c, s.changed name = some c → c < bound
  reset : ∀ name c, s.reset name = some c → s.RecordedSince name c
  pending : ∀ name c, s.changed name = some c →
    name ∈ s.tracker.pendingRefresh ∨
      (∃ id trigger, s.triggers.lookup id = some trigger ∧
        name ∈ trigger.names) ∨ s.ResetSince name c
  due : ∀ id trigger name c, s.triggers.lookup id = some trigger →
    trigger.due name = some c → s.RecordedSince name c
  taken : ∀ id trigger name c, s.triggers.lookup id = some trigger →
    trigger.due name = some c → name ∈ trigger.names ∨ s.ResetSince name c
  triggered : ∀ name c, s.triggered name = some c → s.ResetSince name c

structure Scheduled (s : CaptureState V) : Prop where
  idle : s.views.job = none → s.started = none
  read : ∀ job result, s.views.job = some job → job.result = some result →
    s.started.isSome = true
  inFlight : ∀ job start c, s.views.job = some job → s.started = some start →
    s.reset job.snapshot.name = some c → c < start
  fresh : ∀ name entry c, s.views.views.get name = some entry →
    s.reset name = some c → entry.view.lastRefresh = none ∨
      ∃ p, s.produced name = some p ∧ c < p

variable {s : CaptureState V} {bound : Nat}

theorem Tracked.mono (h : Tracked bound s) : Tracked (bound + 1) s :=
  { h with changed := fun name c hc => Nat.lt_succ_of_lt (h.changed name c hc) }

theorem Tracked.reset_lt {name : Str} {c : Nat} (h : Tracked bound s)
    (hc : s.reset name = some c) : c < bound := by
  obtain ⟨latest, hlatest, hle⟩ := h.reset name c hc
  exact Nat.lt_of_le_of_lt hle (h.changed name latest hlatest)

theorem Tracked.recordChange (h : Tracked s.steps s) (event : ChangeEvent) :
    Tracked (s.steps + 1) (s.recordChange event) := by
  have hrecorded : ∀ name c, s.RecordedSince name c →
      (s.recordChange event).RecordedSince name c := by
    rintro name c ⟨latest, hlatest, hle⟩
    by_cases hdep : s.tracker.DependsOn name (event.datasource, event.table)
    · refine ⟨s.steps, if_pos hdep, ?_⟩
      exact (Nat.lt_of_le_of_lt hle (h.changed name latest hlatest)).le
    · exact ⟨latest, (if_neg hdep).trans hlatest, hle⟩
  refine ⟨fun name c hc => ?_, fun name c hc =>
    hrecorded name c (h.reset name c hc),
    fun name c hc => ?_, fun id trigger name c hid hdue =>
      hrecorded name c (h.due id trigger name c hid hdue), h.taken, h.triggered⟩
  · simp only [CaptureState.recordChange] at hc
    split at hc
    · cases hc
      exact Nat.lt_succ_self _
    · exact Nat.lt_succ_of_lt (h.changed name c hc)
  · simp only [CaptureState.recordChange] at hc
    split at hc
    · rename_i hdep
      refine Or.inl (Finset.mem_union_right _ ?_)
      exact mem_toFinset.mpr (CdcTracker.mem_affected.mpr hdep)
    · exact (h.pending name c hc).imp_left (Finset.mem_union_left _)

theorem Tracked.beginTrigger (h : Tracked bound s) (id : Nat)
    (halone : ∀ id, s.triggers.lookup id = none) :
    Tracked bound (s.beginTrigger id) := by
  have hnone : ∀ {other trigger} {P : Prop},
      s.triggers.lookup other = some trigger → P := fun hother => by
    cases (halone _).symm.trans hother
  have hpending : ∀ name c, s.changed name = some c →
      name ∈ s.tracker.pendingRefresh ∨ s.ResetSince name c := by
    intro name c hc
    rcases h.pending name c hc with hin | ⟨other, trigger, hother, -⟩ | hreset
    · exact Or.inl hin
    · exact hnone hother
    · exact Or.inr hreset
  have hnew : ∀ other trigger, (s.triggers.insert id
      { names := s.tracker.takePending.1, due := s.changed }).lookup other =
        some trigger → trigger =
          { names := s.tracker.pendingRefresh, due := s.changed } := by
    intro other trigger hother
    rcases lookup_of_insert hother with ⟨-, rfl⟩ | ⟨-, hother⟩
    · rfl
    · exact hnone hother
  unfold CaptureState.beginTrigger
  split
  · exact h
  refine ⟨h.changed, h.reset, fun name c hc => Or.inr ?_,
      fun other trigger name c hother hdue =>
    ?_, fun other trigger name c hother hdue => ?_, h.triggered⟩
  · exact (hpending name c hc).imp_left fun hin =>
      ⟨id, _, AList.lookup_insert _, hin⟩
  · obtain rfl := hnew other trigger hother
    exact ⟨c, hdue, Nat.le_refl c⟩
  · obtain rfl := hnew other trigger hother
    exact hpending name c hdue

section Reset

variable {id : Nat} {name : Str} {trigger : RefreshTrigger}

theorem resetView_eq (hid : s.triggers.lookup id = some trigger)
    (hname : name ∈ trigger.names) :
    s.resetView id name =
      { s with
        views := { s.views with
          views := s.views.views.write name MaterializedView.resetLastRefresh }
        triggers := s.triggers.insert id
          { trigger with names := trigger.names.erase name }
        reset := Function.update s.reset name (s.changed name) } := by
          simp [resetView, hid, hname]

theorem resetSince_of_recorded {c : Nat}
    (hid : s.triggers.lookup id = some trigger) (hname : name ∈ trigger.names)
    (h : s.RecordedSince name c) : (s.resetView id name).ResetSince name c := by
  obtain ⟨latest, hlatest, hle⟩ := h
  rw [resetView_eq hid hname]
  exact ⟨latest, (Function.update_self ..).trans hlatest, hle⟩

theorem Tracked.resetSince {m : Str} {c : Nat} (h : Tracked bound s)
    (hid : s.triggers.lookup id = some trigger) (hname : name ∈ trigger.names)
    (hreset : s.ResetSince m c) : (s.resetView id name).ResetSince m c := by
  obtain ⟨latest, hlatest, hle⟩ := hreset
  by_cases hother : m = name
  · subst hother
    obtain ⟨last, hlast, hle'⟩ := h.reset m latest hlatest
    exact resetSince_of_recorded hid hname ⟨last, hlast, hle.trans hle'⟩
  · rw [resetView_eq hid hname]
    exact ⟨latest, (Function.update_of_ne hother ..).trans hlatest, hle⟩

theorem Tracked.resetTaken (h : Tracked bound s)
    (hid : s.triggers.lookup id = some trigger)
    (hname : name ∈ trigger.names) : Tracked bound (s.resetView id name) := by
  have hkeeps := fun n c => h.resetSince (m := n) (c := c) hid hname
  have hself := fun c => resetSince_of_recorded (c := c) hid hname
  rw [resetView_eq hid hname] at hkeeps hself ⊢
  -- the call that resets has the same changes due and one view less
  have htriggers : ∀ other found, (s.triggers.insert id
      { trigger with names := trigger.names.erase name }).lookup other =
        some found → ∃ old, s.triggers.lookup other = some old ∧
          found.due = old.due ∧ ∀ n ∈ old.names, n = name ∨
          n ∈ found.names := by
    intro other found hother
    rcases lookup_of_insert hother with ⟨rfl, rfl⟩ | ⟨-, hother⟩
    · refine ⟨trigger, hid, rfl, fun n hn => ?_⟩
      exact (em (n = name)).imp_right fun hne => Finset.mem_erase.mpr ⟨hne, hn⟩
    · exact ⟨found, hother, rfl, fun n hn => Or.inr hn⟩
  refine ⟨h.changed, fun n c hc => ?_, fun n c hc => ?_,
    fun other found n c hother hdue => ?_,
    fun other found n c hother hdue => ?_, fun n c hc =>
      hkeeps n c (h.triggered n c hc)⟩
  · change Function.update s.reset name (s.changed name) n = some c at hc
    by_cases hn : n = name
    · subst hn
      rw [Function.update_self] at hc
      exact ⟨c, hc, Nat.le_refl c⟩
    · rw [Function.update_of_ne hn] at hc
      exact h.reset n c hc
  · by_cases hn : n = name
    · subst hn
      exact Or.inr (Or.inr (hself c ⟨c, hc, Nat.le_refl c⟩))
    rcases h.pending n c hc with hin | ⟨other, old, hother, hin⟩ | hreset
    · exact Or.inl hin
    · refine Or.inr (Or.inl ?_)
      by_cases heq : other = id
      · subst heq
        obtain rfl := Option.some.inj (hid.symm.trans hother)
        exact ⟨other, _, AList.lookup_insert _, Finset.mem_erase.mpr ⟨hn, hin⟩⟩
      · exact ⟨other, old, (AList.lookup_insert_ne heq).trans hother, hin⟩
    · exact Or.inr (Or.inr (hkeeps n c hreset))
  · obtain ⟨old, hold, hsame, -⟩ := htriggers other found hother
    exact h.due other old n c hold (hsame ▸ hdue)
  · obtain ⟨old, hold, hsame, hnames⟩ := htriggers other found hother
    rcases h.taken other old n c hold (hsame ▸ hdue) with hin | hreset
    · rcases hnames n hin with rfl | hin
      · exact Or.inr (hself c (h.due other old n c hold (hsame ▸ hdue)))
      · exact Or.inl hin
    · exact Or.inr (hkeeps n c hreset)

theorem Tracked.resetView (h : Tracked bound s) :
    Tracked bound (s.resetView id name) := by
  cases hid : s.triggers.lookup id with
  | none => simpa only [CaptureState.resetView, hid] using h
  | some trigger =>
    by_cases hname : name ∈ trigger.names
    · exact h.resetTaken hid hname
    · simpa only [CaptureState.resetView, hid, hname, if_false] using h

theorem Tracked.endTrigger (h : Tracked bound s) :
    Tracked bound (s.endTrigger id) := by
  unfold CaptureState.endTrigger
  split
  · exact h
  rename_i trigger hid
  split
  · rename_i hempty
    refine ⟨h.changed, h.reset, fun n c hc => ?_, fun other found n c hother =>
      h.due other found n c (lookup_of_erase hother).2,
      fun other found n c hother =>
      h.taken other found n c (lookup_of_erase hother).2, fun n c hc => ?_⟩
    · rcases h.pending n c hc with hin | ⟨other, found, hother, hin⟩ | hreset
      · exact Or.inl hin
      · have heq : other ≠ id := by
          rintro rfl
          obtain rfl := Option.some.inj (hid.symm.trans hother)
          exact Finset.notMem_empty n (hempty ▸ hin)
        exact Or.inr (Or.inl ⟨other, found,
          (AList.lookup_erase_ne heq).trans hother, hin⟩)
      · exact Or.inr (Or.inr hreset)
    · refine (h.taken id trigger n c hid hc).resolve_left ?_
      rw [hempty]
      exact Finset.notMem_empty n
  · exact h

end Reset

/-! ## What the scheduler's steps keep -/

theorem Scheduled.resetView {id : Nat} {name : Str} (h : Scheduled s)
    (hafter : ResetsAfterExecutions s (.triggerReset id name)) :
    Scheduled (s.resetView id name) := by
  cases hid : s.triggers.lookup id with
  | none => simpa only [CaptureState.resetView, hid] using h
  | some trigger =>
    by_cases hname : name ∈ trigger.names
    · rw [resetView_eq hid hname]
      refine ⟨h.idle, h.read, fun job start c hjob hstart hc => ?_,
        fun n entry c hentry hc => ?_⟩
      · change Function.update s.reset name (s.changed name) _ = some c at hc
        by_cases hn : job.snapshot.name = name
        · rw [hn, Function.update_self] at hc
          exact hafter job start c hjob hn hstart hc
        · rw [Function.update_of_ne hn] at hc
          exact h.inFlight job start c hjob hstart hc
      · change Function.update s.reset name (s.changed name) n = some c at hc
        rw [MaterializedViewRegistry.get_write] at hentry
        obtain ⟨old, hold, rfl⟩ := Option.map_eq_some_iff.mp hentry
        by_cases hn : n = name
        · rw [if_pos hn]
          exact Or.inl rfl
        · rw [Function.update_of_ne hn] at hc
          rw [if_neg hn]
          exact h.fresh n old c hold hc
    · simpa only [CaptureState.resetView, hid, hname, if_false] using h

theorem Scheduled.beginTrigger {id : Nat} (h : Scheduled s) :
    Scheduled (s.beginTrigger id) := by
  unfold CaptureState.beginTrigger
  split
  · exact h
  · exact { h with }

theorem Scheduled.endTrigger {id : Nat} (h : Scheduled s) :
    Scheduled (s.endTrigger id) := by
  unfold CaptureState.endTrigger
  split
  · exact h
  · split
    · exact { h with }
    · exact h

theorem Scheduled.startExecution (h : Scheduled s) (ht : Tracked s.steps s) :
    Scheduled s.startExecution := by
  unfold CaptureState.startExecution
  split
  · rename_i snapshot hjob _
    refine ⟨fun hnone => ?_, fun _ _ _ _ => rfl, fun job start c _ hstart hc =>
      ?_, h.fresh⟩
    · cases hjob.symm.trans hnone
    · cases hstart
      exact ht.reset_lt hc
  · exact h

variable [ArrowKernels V]

theorem Scheduled.applyResult (h : Scheduled s) : Scheduled s.applyResult := by
  unfold CaptureState.applyResult
  split
  · rename_i snapshot result hjob
    obtain ⟨start, hstart⟩ :=
      Option.isSome_iff_exists.mp (h.read _ result hjob rfl)
    simp only [ViewsState.step, ViewsState.applyJob_eq hjob]
    refine ⟨fun _ => rfl, fun _ _ hnone => (by cases hnone),
      fun _ _ _ hnone => (by cases hnone), fun n entry c hentry hc => ?_⟩
    rw [MaterializedViewRegistry.get_write] at hentry
    obtain ⟨old, hold, rfl⟩ := Option.map_eq_some_iff.mp hentry
    by_cases hn : n = snapshot.name
    · subst hn
      rw [if_pos rfl]
      cases result with
      | error message => exact h.fresh _ old c hold hc
      | ok batches =>
        refine Or.inr ⟨start, ?_, h.inFlight _ start c hjob hstart hc⟩
        exact (Function.update_self ..).trans hstart
    · rw [if_neg hn]
      cases result with
      | error message => exact h.fresh n old c hold hc
      | ok batches =>
        simp only [Function.update_of_ne hn]
        exact h.fresh n old c hold hc
  · exact h

theorem Scheduled.viewStep {e : ViewEvent V} (h : Scheduled s)
    (honly : SchedulerOnly (.view e)) : Scheduled (s.viewStep e) := by
  cases e with
  | tick d => exact { h with }
  | register definition =>
    refine { h with fresh := fun n entry c hentry hc => ?_ }
    change (s.views.views.register s.views.cells definition).get n = some entry
      at hentry
    rw [MaterializedViewRegistry.get_register] at hentry
    split at hentry
    · cases hentry
      exact Or.inl rfl
    · exact h.fresh n entry c hentry hc
  | remove name =>
    refine { h with fresh := fun n entry c hentry hc => ?_ }
    change (s.views.views.remove name).get n = some entry at hentry
    rw [MaterializedViewRegistry.get_remove] at hentry
    split at hentry
    · cases hentry
    · exact h.fresh n entry c hentry hc
  | poll stale =>
    simp only [CaptureState.viewStep, ViewsState.step]
    split
    · exact { h with }
    · exact h
  | snapshot =>
    simp only [CaptureState.viewStep, ViewsState.step, ViewsState.takeSnapshot]
    split
    · rename_i name queue hnone _
      have hstarted := h.idle hnone
      refine ⟨fun _ => hstarted, fun job result hjob hresult => ?_,
        fun job start c hjob hstart => ?_, h.fresh⟩
      · obtain ⟨entry, -, rfl⟩ := Option.map_eq_some_iff.mp hjob
        cases hresult
      · cases hstarted.symm.trans hstart
    · exact h
  | execute result =>
    simp only [CaptureState.viewStep]
    split
    · rename_i hstarted
      simp only [ViewsState.step, ViewsState.executeJob]
      split
      · rename_i snapshot hjob
        refine ⟨fun hnone => (by cases hnone), fun _ _ _ _ => hstarted,
          fun job start c heq hstart hc => ?_, h.fresh⟩
        cases heq
        exact h.inFlight _ start c hjob hstart hc
      · exact h
    · exact h
  | apply => exact h.applyResult
  | statementBegin id name | statementExecute id result | statementApply id =>
    exact honly.elim

/-! ## Runs -/

theorem Tracked.viewStep {e : ViewEvent V} (h : Tracked bound s) :
    Tracked bound (s.viewStep e) := by
  unfold CaptureState.viewStep
  split
  · split
    · exact { h with }
    · exact h
  · unfold CaptureState.applyResult
    split
    · exact { h with }
    · exact h
  · exact { h with }

omit [ArrowKernels V] in
theorem Tracked.startExecution (h : Tracked bound s) :
    Tracked bound s.startExecution := by
  unfold CaptureState.startExecution
  split
  · exact { h with }
  · exact h

structure Kept (s : CaptureState V) : Prop where
  tracked : Tracked s.steps s
  scheduled : Scheduled s

omit [ArrowKernels V] in
theorem Kept.of_next {next : CaptureState V} {steps : Nat}
    (ht : Tracked steps next)
    (hs : Scheduled next) : Kept { next with steps } :=
  ⟨{ ht with }, { hs with }⟩

theorem Kept.step {e : CaptureEvent V} (h : Kept s) (honly : SchedulerOnly e)
    (hafter : ResetsAfterExecutions s e) : Kept (s.step e) := by
  obtain ⟨ht, hs⟩ := h
  cases e with
  | registerView name sources =>
    exact .of_next { ht.mono with } { hs with }
  | change event =>
    exact .of_next (ht.recordChange event) { hs with }
  | triggerBegin id =>
    exact .of_next (ht.mono.beginTrigger id hafter) hs.beginTrigger
  | triggerReset id name =>
    exact .of_next ht.mono.resetView (hs.resetView hafter)
  | triggerEnd id =>
    exact .of_next ht.mono.endTrigger hs.endTrigger
  | start => exact .of_next ht.mono.startExecution (hs.startExecution ht)
  | view e => exact .of_next ht.mono.viewStep (hs.viewStep honly)

omit [ArrowKernels V] in
theorem Kept.notificationKept (h : Kept s) (name : Str) :
    s.NotificationKept name := by
  intro entry c hentry hc
  obtain ⟨latest, hlatest, hle⟩ := h.tracked.triggered name c hc
  rcases h.scheduled.fresh name entry latest hentry hlatest with
    hnone | ⟨p, hp, hlt⟩
  · refine Or.inl ?_
    rw [MaterializedView.needsRefresh, hnone]
  · exact Or.inr ⟨p, hp, Nat.lt_of_le_of_lt hle hlt⟩

/-- No change is lost in runs where views are reset only after the executions
that started before the change. -/
theorem notification_kept (events : List (CaptureEvent V))
    (honly : ∀ e ∈ events, SchedulerOnly e)
    (h : EveryStep CaptureState.step ResetsAfterExecutions {} events)
    (name : Str) :
    (runSteps CaptureState.step {} events).NotificationKept name := by
  have hinit : Kept ({} : CaptureState V) := by
    refine ⟨⟨?_, ?_, ?_, ?_, ?_, ?_⟩, ⟨fun _ => rfl, ?_, ?_, ?_⟩⟩
    all_goals intros
    all_goals contradiction
  have hkept := EveryStep.inv_runSteps (I := Kept)
    (fun s e hs he => hs.step he.2 he.1) hinit (h.and_mem honly)
  exact hkept.notificationKept name

end CaptureState

section Example

attribute [local instance] textCells

def changeOfT : ChangeEvent where
  datasource := "a"
  table := "t"
  changeType := .insert
  timestamp := 0

def registerTracked : List (CaptureEvent Str) :=
  [.view (.register (viewOn "a.t")),
    .registerView "v" {("a".toList, "t".toList)}]

def startRefresh : List (CaptureEvent Str) :=
  [.view (.poll ["v".toList]), .view .snapshot, .start]

def changeAndTrigger : List (CaptureEvent Str) :=
  [.change changeOfT, .triggerBegin 0, .triggerReset 0 "v", .triggerEnd 0]

def finishRefresh : List (CaptureEvent Str) :=
  [.view (.execute (.ok [queryBatch (viewOn "a.t").query])), .view .apply]

def changeDuringRefresh : List (CaptureEvent Str) :=
  registerTracked ++ startRefresh ++ changeAndTrigger ++ finishRefresh

def changeBeforeRefresh : List (CaptureEvent Str) :=
  registerTracked ++ changeAndTrigger ++ startRefresh ++ finishRefresh

/-- The view is not stale and has the rows from before the change. -/
theorem change_during_refresh_is_lost :
    (∀ e ∈ changeDuringRefresh, CaptureState.SchedulerOnly e) ∧
    ¬ (runSteps CaptureState.step {}
        changeDuringRefresh).NotificationKept "v" := by
  refine ⟨?_, fun hkept => ?_⟩
  · simp [changeDuringRefresh, registerTracked, startRefresh,
      changeAndTrigger, finishRefresh, CaptureState.SchedulerOnly]
  · rcases hkept _ _ rfl rfl with hstale | ⟨p, hp, hlater⟩
    · exact absurd hstale (by decide +kernel)
    · cases hp
      exact absurd hlater (by decide +kernel)

theorem notification_kept_before_refresh :
    (runSteps CaptureState.step
      {} changeBeforeRefresh).NotificationKept "v" := by
  refine CaptureState.notification_kept changeBeforeRefresh ?_ ?_ "v"
  · simp [changeBeforeRefresh, registerTracked, startRefresh,
      changeAndTrigger, finishRefresh, CaptureState.SchedulerOnly]
  · refine ⟨trivial, trivial, trivial, ?_, ?_, trivial, trivial, trivial,
      trivial, trivial, trivial, trivial⟩
    · intro id
      rfl
    · intro job start c hjob
      cases hjob

end Example

end Fuse.Server
