import Fuse.Foundation.Runs
import Fuse.Server.Fanout

/-!
# Executions in flight

How many executions of connectors run at once and what is counted of them.
`adaptive_parallelism.rs` sets the permits of a fan-out from the successes and
failures of its sources; `pool_stats.rs` counts the executions in flight by
calls before and after them, which a future that is dropped does not reach.
-/

namespace Fuse.Server

open Foundation Fuse.Core Engine List

/-! ## Permits of a fan-out -/

structure DatasourceStats where
  concurrency : Nat := 4
  recentLatencies : List Nat := []
  recentErrors : Nat := 0
  recentSuccesses : Nat := 0

/-- The rates are taken of ten samples, where the comparisons of the floats are
those of the fractions. -/
def DatasourceStats.maybeAdjust (stats : DatasourceStats) : DatasourceStats :=
  let total := stats.recentSuccesses + stats.recentErrors
  if total < 10 then stats
  else
    let concurrency :=
      if 3 * total < 10 * stats.recentErrors then max (stats.concurrency / 2) 1
      else if 20 * stats.recentErrors < total ∧ stats.recentLatencies ≠ [] ∧
          stats.recentLatencies.sum % 2 ^ 64 / stats.recentLatencies.length <
          500 then
        min (stats.concurrency + 1) 16
      else stats.concurrency
    { stats with concurrency, recentSuccesses := 0, recentErrors := 0 }

abbrev AdaptiveParallelism := Str → Option DatasourceStats

namespace AdaptiveParallelism

variable (ap : AdaptiveParallelism)

def concurrencyFor (datasource : Str) : Nat :=
  ((ap datasource).map (·.concurrency)).getD 4

def recordSuccess (datasource : Str) (latencyMs : Nat) : AdaptiveParallelism :=
  let stats := (ap datasource).getD {}
  let kept := if 100 ≤ stats.recentLatencies.length
    then stats.recentLatencies.drop 1
    else stats.recentLatencies
  Function.update ap datasource (some { stats with
    recentSuccesses := stats.recentSuccesses + 1
    recentLatencies := kept ++ [latencyMs] }.maybeAdjust)

def recordFailure (datasource : Str) : AdaptiveParallelism :=
  let stats := (ap datasource).getD {}
  Function.update ap datasource
    (some { stats with recentErrors := stats.recentErrors + 1 }.maybeAdjust)

end AdaptiveParallelism

inductive ExecutionRecord where
  | success (datasource : Str) (latencyMs : Nat)
  | failure (datasource : Str)

def recordExecution (record : ExecutionRecord) (ap : AdaptiveParallelism) :
    AdaptiveParallelism :=
  match record with
  | .success datasource latencyMs => ap.recordSuccess datasource latencyMs
  | .failure datasource => ap.recordFailure datasource

def parallelismAfter (history : List ExecutionRecord) : AdaptiveParallelism :=
  runSteps recordExecution (fun _ => none) history

def maxConcurrency {V : Type} (registry : Registry V) (ap : AdaptiveParallelism)
    (refs : List TableRef) : Nat :=
  ((refs.filterMap fun r => (registry.get r.datasource).map
    fun _ => ap.concurrencyFor r.datasource).max?).getD 4

def DatasourceStats.InRange (stats : DatasourceStats) : Prop :=
  1 ≤ stats.concurrency ∧ stats.concurrency ≤ 16

theorem DatasourceStats.InRange.maybeAdjust {stats : DatasourceStats}
    (h : stats.InRange) : stats.maybeAdjust.InRange := by
  unfold DatasourceStats.maybeAdjust
  obtain ⟨hmin, hmax⟩ := h
  dsimp only
  split
  · exact ⟨hmin, hmax⟩
  dsimp only [InRange]
  split
  · omega
  · split <;> omega

theorem DatasourceStats.inRange_default : ({} : DatasourceStats).InRange := by
  constructor <;> decide

private theorem inRange_recordExecution {ap : AdaptiveParallelism}
    (h : ∀ ds, ((ap ds).getD {}).InRange)
    (record : ExecutionRecord) (ds : Str) :
    ((recordExecution record ap ds).getD {}).InRange := by
  have hupdate : ∀ (ds' : Str) (stats : DatasourceStats), stats.InRange →
      ((Function.update ap ds' (some stats.maybeAdjust) ds).getD
        {}).InRange := by
    intro ds' stats hstats
    by_cases hds : ds = ds'
    · rw [hds, Function.update_self]
      exact hstats.maybeAdjust
    · rw [Function.update_of_ne hds]
      exact h ds
  cases record with
  | success ds' latencyMs => exact hupdate ds' _ (h ds')
  | failure ds' => exact hupdate ds' _ (h ds')

theorem concurrencyFor_parallelismAfter (history : List ExecutionRecord)
    (datasource : Str) :
    1 ≤ (parallelismAfter history).concurrencyFor datasource ∧
      (parallelismAfter history).concurrencyFor datasource ≤ 16 := by
  have hstart : ∀ ds,
      (((fun _ => none : AdaptiveParallelism) ds).getD {}).InRange :=
    fun _ => DatasourceStats.inRange_default
  have hrange : ((parallelismAfter history datasource).getD {}).InRange :=
    runSteps_inv (I := fun ap : AdaptiveParallelism => ∀ ds,
      ((ap ds).getD {}).InRange)
      (fun record _ _ h ds => inRange_recordExecution h record ds) hstart
        datasource
  unfold AdaptiveParallelism.concurrencyFor
  cases hstats : parallelismAfter history datasource with
  | none => decide
  | some stats =>
    rw [hstats] at hrange
    exact hrange

theorem maxConcurrency_cases {V : Type} (registry : Registry V)
    (ap : AdaptiveParallelism) (refs : List TableRef) :
    ((∀ r ∈ refs, registry.get r.datasource = none) ∧
      maxConcurrency registry ap refs = 4) ∨
      (∃ r ∈ refs, (registry.get r.datasource).isSome ∧
        maxConcurrency registry ap refs = ap.concurrencyFor r.datasource) ∧
      ∀ r ∈ refs, (registry.get r.datasource).isSome →
        ap.concurrencyFor r.datasource ≤ maxConcurrency registry ap refs := by
  unfold maxConcurrency
  cases hmax : (refs.filterMap fun r => (registry.get r.datasource).map
      fun _ => ap.concurrencyFor r.datasource).max? with
  | none =>
    rw [max?_eq_none_iff, filterMap_eq_nil_iff] at hmax
    exact .inl ⟨fun r hr => Option.map_eq_none_iff.mp (hmax r hr), rfl⟩
  | some permits =>
    obtain ⟨hmem, hle⟩ := max?_eq_some_iff.mp hmax
    obtain ⟨r, hr, hvalue⟩ := mem_filterMap.mp hmem
    obtain ⟨connector, hconnector, rfl⟩ := Option.map_eq_some_iff.mp hvalue
    refine .inr ⟨⟨r, hr, by rw [hconnector]; rfl, rfl⟩, fun r' hr' hsome => ?_⟩
    obtain ⟨connector', hconnector'⟩ := Option.isSome_iff_exists.mp hsome
    exact hle _ (mem_filterMap.mpr ⟨r', hr', by rw [hconnector']; rfl⟩)

/-- The tasks of `execute_union` under its permits, in every schedule. -/
structure FanoutBounded {V : Type} (registry : Registry V) (base : SubQuery)
    (refs : List TableRef) (ap : AdaptiveParallelism) : Prop where
  permits : unionTasks registry base refs ≠ [] →
    (∃ r ∈ refs, (registry.get r.datasource).isSome ∧
      maxConcurrency registry ap refs = ap.concurrencyFor r.datasource) ∧
    ∀ r ∈ refs, (registry.get r.datasource).isSome →
      ap.concurrencyFor r.datasource ≤ maxConcurrency registry ap refs
  bounded : ∀ (outcome : Nat → TaskResult V → Prop)
    (p : Fanout.Pool (TaskResult V)),
    Fanout.Reachable outcome (unionTasks registry base refs).length
      (maxConcurrency registry ap refs) p →
    p.tasks.countP Fanout.isRunning ≤ maxConcurrency registry ap refs
  live : ∀ (outcome : Nat → TaskResult V → Prop)
    (p : Fanout.Pool (TaskResult V)),
    Fanout.Reachable outcome (unionTasks registry base refs).length
      (maxConcurrency registry ap refs) p →
    (∀ i, i < (unionTasks registry base refs).length → ∃ r, outcome i r) →
    (∀ q, ¬ Fanout.Step outcome p q) → ∀ t ∈ p.tasks, ∃ r, t = .done r
  finite : ∀ (outcome : Nat → TaskResult V → Prop)
    (run : Nat → Fanout.Pool (TaskResult V)),
    ∃ i, ¬ Fanout.Step outcome (run i) (run (i + 1))

/-- The permits stay between 1 and 16 over every history, so that every fan-out
is bounded and none gets stuck. -/
theorem fanout_bounded_live (history : List ExecutionRecord) :
    (∀ ds, 1 ≤ (parallelismAfter history).concurrencyFor ds ∧
        (parallelismAfter history).concurrencyFor ds ≤ 16) ∧
      ∀ (V : Type) (registry : Registry V) (base : SubQuery)
        (refs : List TableRef),
        FanoutBounded registry base refs (parallelismAfter history) := by
  refine ⟨concurrencyFor_parallelismAfter history,
    fun V registry base refs => ?_⟩
  have hcases := maxConcurrency_cases registry (parallelismAfter history) refs
  have hpos : 0 < maxConcurrency registry (parallelismAfter history) refs := by
    rcases hcases with ⟨-, hfour⟩ | ⟨⟨r, -, -, hpermits⟩, -⟩
    · omega
    · rw [hpermits]
      exact (concurrencyFor_parallelismAfter history r.datasource).1
  refine ⟨fun hne => hcases.resolve_left ?_, fun outcome p hp => ?_,
      fun outcome p hp houtcome =>
    (Fanout.reachable_inv hp).stuck hpos houtcome, fun _ run =>
    Fanout.no_endless_schedule run⟩
  · rintro ⟨hnone, -⟩
    refine hne ?_
    rw [unionTasks_eq, filterMap_eq_nil_iff]
    intro r hr
    rw [hnone r hr]
    rfl
  · have hheld := (Fanout.reachable_inv hp).held
    omega

/-! ## Counting the executions -/

abbrev PoolCounts := Str → Option Nat

namespace PoolCounts

def change (f : Nat → Nat) (counts : PoolCounts) (id : Str) : PoolCounts :=
  Function.update counts id ((counts id).map f)

def acquire : PoolCounts → Str → PoolCounts := change (· + 1)

def release : PoolCounts → Str → PoolCounts := change (· - 1)

end PoolCounts

/-- What a request awaits: the three paths of a query, and executions that are
not counted (`IN` sub-selects, the `SELECT` of a write statement or a view). -/
inductive ExecutionPath where
  | single (ds : Str)
  | task (ds : Str)
  | join (dsA dsB : Str)
  | plain (ds : Str)

namespace ExecutionPath

def sources : ExecutionPath → List Str
  | .single ds => [ds]
  | .task ds => [ds]
  | .join dsA dsB => [dsA, dsB]
  | .plain ds => [ds]

def acquired (path : ExecutionPath) : List Str :=
  match path with
  | .plain _ => []
  | _ => path.sources

/-- A task is spawned: it goes on, and may start, when its request is gone. -/
def spawned : ExecutionPath → Bool
  | .task _ => true
  | _ => false

end ExecutionPath

structure OpenPath where
  query : Nat
  path : ExecutionPath
  inFlight : List Str

structure PoolState where
  counts : PoolCounts
  queries : List Nat := []
  paths : List OpenPath := []

inductive PoolEvent where
  | request (query : Nat)
  | start (query : Nat) (path : ExecutionPath)
  | finish (i : Nat) (ended : List Str)
  /-- The request is over: answered, or its future is dropped by the time-out of
  the query, a cancellation or a client that goes away. -/
  | leave (query : Nat)

namespace PoolState

variable (s : PoolState)

def Starts (query : Nat) (path : ExecutionPath) : Prop :=
  query ∈ s.queries ∨ path.spawned = true

instance (query : Nat) (path : ExecutionPath) :
    Decidable (s.Starts query path) :=
  inferInstanceAs (Decidable (_ ∨ _))

def stays (query : Nat) (p : OpenPath) : Bool :=
  p.query ≠ query || p.path.spawned

def step : PoolEvent → PoolState → PoolState
  | .request query, s => { s with queries := query :: s.queries }
  | .start query path, s =>
    if s.Starts query path then
      { s with
        counts := path.acquired.foldl .acquire s.counts
        paths := ⟨query, path, path.sources⟩ :: s.paths }
    else s
  | .finish i ended, s =>
    match s.paths[i]? with
    | none => s
    | some open' =>
      if open'.inFlight.diff ended = [] then
        { s with
          counts := open'.path.acquired.foldl .release s.counts
          paths := s.paths.eraseIdx i }
      else { s with
        paths := s.paths.set i { open'
          with inFlight := open'.inFlight.diff ended } }
  | .leave query, s =>
    { s with
      queries := s.queries.filter (· ≠ query)
      paths := s.paths.filter (stays query) }

def executions (ds : Str) : Nat := (s.paths.flatMap (·.inFlight)).count ds

structure Balanced : Prop where
  counted : ∀ ds n, s.counts ds = some n → n = s.executions ds
  idle : s.queries = [] → ∀ ds n, s.counts ds = some n → n = 0

def Registered (ds : Str) : Prop := (s.counts ds).isSome

/-- What each event must not do to executions of registered connectors: start
them without an `acquire`, end one of a join before the other, drop them, or
leave a task behind while no request is open. -/
def Orderly (e : PoolEvent) : Prop :=
  match e with
  | .request _ => True
  | .start query path => s.Starts query path →
      (∀ ds, s.Registered ds → path.sources.count ds = path.acquired.count ds) ∧
        (s.queries = [] → ∀ ds, s.Registered ds → ds ∉ path.sources)
  | .finish i ended =>
    ∀ open' ∈ s.paths[i]?, open'.inFlight.diff ended = [] ∨ ∀ ds,
      s.Registered ds → (open'.inFlight.diff ended).count ds =
        open'.inFlight.count ds
  | .leave query =>
    (∀ open' ∈ s.paths, stays query open' = false →
        ∀ ds, s.Registered ds → ds ∉ open'.inFlight) ∧
      ((∀ q ∈ s.queries, q = query) → ∀ open' ∈ s.paths,
        stays query open' = true → ∀ ds, s.Registered ds → ds ∉ open'.inFlight)

/-- Of the registered connectors all executions of an open path are counted and
in flight. -/
structure Kept : Prop where
  balanced : s.Balanced
  whole : ∀ open' ∈ s.paths, ∀ ds, s.Registered ds →
    open'.inFlight.count ds = open'.path.acquired.count ds

end PoolState

theorem foldl_change {f : Nat → Nat} (times : Nat → Nat → Nat)
    (hzero : ∀ n, times 0 n = n)
    (hsucc : ∀ k n, times k (f n) = times (k + 1) n) (ids : List Str)
    (counts : PoolCounts) (ds : Str) : ids.foldl (.change f) counts ds =
      (counts ds).map (times (ids.count ds)) := by
  induction ids generalizing counts with
  | nil => simp [show times 0 = id from funext hzero]
  | cons id ids ih =>
    rw [foldl_cons, ih, PoolCounts.change]
    by_cases hds : ds = id
    · subst hds
      simp [Function.comp_def, hsucc]
    · rw [Function.update_of_ne hds, count_cons_of_ne (Ne.symm hds)]

theorem foldl_acquire (ids : List Str) (counts : PoolCounts) (ds : Str) :
    ids.foldl .acquire counts ds = (counts ds).map (· + ids.count ds) :=
  foldl_change (fun k n => n + k) (fun _ => rfl)
    (fun _ _ => by omega) ids counts ds

theorem foldl_release (ids : List Str) (counts : PoolCounts) (ds : Str) :
    ids.foldl .release counts ds = (counts ds).map (· - ids.count ds) :=
  foldl_change (fun k n => n - k) (fun _ => rfl)
    (fun _ _ => by omega) ids counts ds

theorem executions_at {s t : PoolState} {i : Nat} {open' : OpenPath}
    (h : s.paths[i]? = some open') (ds : Str) :
    (t.paths = s.paths.eraseIdx i →
        t.executions ds + open'.inFlight.count ds = s.executions ds) ∧
      ∀ new, t.paths = s.paths.set i new →
        t.executions ds + open'.inFlight.count ds = s.executions ds +
        new.inFlight.count ds := by
  obtain ⟨hi, hopen⟩ := List.getElem?_eq_some_iff.mp h
  obtain ⟨front, back, hpaths, hlength, -⟩ :
    ∃ front back, s.paths = front ++ s.paths[i] :: back ∧
      front.length = i ∧ s.paths.set i open' = front ++ open' :: back :=
      List.exists_of_set hi
  rw [hopen] at hpaths
  subst hlength
  have hset : ∀ new, (front ++ open' :: back).set front.length new = front ++
    new :: back := by simp
  have herase : (front ++ open' :: back).eraseIdx front.length = front ++
      back := by
    simp [List.eraseIdx_append_of_length_le]
  constructor
  · intro ht
    simp only [PoolState.executions, ht, hpaths, herase, List.flatMap_append,
      List.flatMap_cons, List.count_append]
    omega
  · intro new ht
    simp only [PoolState.executions, ht, hpaths, hset, List.flatMap_append,
      List.flatMap_cons, List.count_append]
    omega

theorem executions_eq_zero {s : PoolState} {ds : Str} :
    s.executions ds = 0 ↔ ∀ p ∈ s.paths, ds ∉ p.inFlight := by
  simp [PoolState.executions, count_eq_zero]

theorem executions_filter (s : PoolState) (keep : OpenPath → Bool) (ds : Str) :
    PoolState.executions { s with paths := s.paths.filter keep } ds +
        PoolState.executions { s with paths := s.paths.filter (!keep ·) } ds =
      s.executions ds := by
  have hperm := (filter_append_perm keep s.paths).flatMap_right (·.inFlight)
  have hcount := hperm.count_eq ds
  rw [flatMap_append, count_append] at hcount
  exact hcount

namespace PoolState.Kept

variable {s : PoolState} {i : Nat} {open' : OpenPath}

theorem executions_idle (h : s.Kept) (hidle : s.queries = []) {ds : Str}
    (hds : s.Registered ds) : s.executions ds = 0 := by
  obtain ⟨n, hn⟩ := Option.isSome_iff_exists.mp hds
  rw [← h.balanced.counted ds n hn, h.balanced.idle hidle ds n hn]

theorem start_iff (h : s.Kept) {query : Nat} {path : ExecutionPath}
    (hstarts : s.Starts query path) :
    (Balanced (s.step (.start query path)) ↔ s.Orderly (.start query path)) ∧
      (s.Orderly (.start query path) → Kept (s.step (.start query path))) := by
  have hstep : s.step (.start query path) =
      { s with
        counts := path.acquired.foldl .acquire s.counts
        paths := ⟨query, path, path.sources⟩ :: s.paths } := if_pos hstarts
  have hexecutions : ∀ ds, (s.step (.start query path)).executions ds =
      path.sources.count ds + s.executions ds := by
    intro ds
    rw [hstep]
    simp [executions, count_append]
  have hcounts : ∀ ds, (s.step (.start query path)).counts ds =
      (s.counts ds).map (· + path.acquired.count ds) := by
    intro ds
    rw [hstep]
    exact foldl_acquire path.acquired s.counts ds
  have hqueries : (s.step (.start query path)).queries = s.queries := by
    rw [hstep]
  have hiff : Balanced (s.step (.start query path)) ↔
      s.Orderly (.start query path) := by
    constructor
    · intro hbalanced _
      have hboth : ∀ ds, s.Registered ds →
          path.sources.count ds = path.acquired.count ds := by
        intro ds hds
        obtain ⟨n, hn⟩ := Option.isSome_iff_exists.mp hds
        have hafter : n + path.acquired.count ds = path.sources.count ds +
            s.executions ds :=
          hexecutions ds ▸ hbalanced.counted ds _ (by rw [hcounts, hn]; rfl)
        have hbefore := h.balanced.counted ds n hn
        omega
      refine ⟨hboth, fun hidle ds hds => ?_⟩
      obtain ⟨n, hn⟩ := Option.isSome_iff_exists.mp hds
      have hafter : n + path.acquired.count ds = 0 :=
        hbalanced.idle (hqueries.trans hidle) ds _ (by rw [hcounts, hn]; rfl)
      rw [← count_eq_zero, hboth ds hds]
      omega
    · intro horderly
      obtain ⟨hboth, hidle⟩ := horderly hstarts
      constructor <;> simp only [hcounts, Option.map_eq_some_iff]
      · rintro ds _ ⟨n, hn, rfl⟩
        have hds : s.Registered ds := Option.isSome_of_mem hn
        rw [hexecutions, h.balanced.counted ds n hn, hboth ds hds, Nat.add_comm]
      · rintro hnone ds _ ⟨n, hn, rfl⟩
        have hds : s.Registered ds := Option.isSome_of_mem hn
        have hnone := hqueries.symm.trans hnone
        rw [← hboth ds hds, count_eq_zero.mpr (hidle hnone ds hds),
          h.balanced.idle hnone ds n hn]
  refine ⟨hiff, fun horderly =>
    ⟨hiff.mpr horderly, fun open' hopen ds hds => ?_⟩⟩
  rw [Registered, hcounts, Option.isSome_map] at hds
  rw [hstep] at hopen
  rcases mem_cons.mp hopen with rfl | hopen
  · exact (horderly hstarts).1 ds hds
  · exact h.whole open' hopen ds hds

theorem close (h : s.Kept) (hopen : s.paths[i]? = some open') :
    Kept { s with
      counts := open'.path.acquired.foldl .release s.counts
      paths := s.paths.eraseIdx i } := by
  have hcounts := foldl_release open'.path.acquired s.counts
  constructor
  · constructor <;> simp only [hcounts, Option.map_eq_some_iff]
    · rintro ds _ ⟨m, hm, rfl⟩
      have hcount := (executions_at (t := { s with
        counts := open'.path.acquired.foldl .release s.counts
        paths := s.paths.eraseIdx i }) hopen ds).1 rfl
      rw [h.whole open' (mem_of_getElem? hopen) ds
        (Option.isSome_of_mem hm)] at hcount
      rw [h.balanced.counted ds m hm]
      omega
    · rintro hnone ds _ ⟨m, hm, rfl⟩
      rw [h.balanced.idle hnone ds m hm, Nat.zero_sub]
  · intro other hother ds hds
    simp only [Registered, hcounts, Option.isSome_map] at hds
    exact h.whole other (mem_of_mem_eraseIdx hother) ds hds

/-- Executions may end without a release where none is of a registered
connector, and none of these is in flight once no request is open. -/
theorem lose_iff (h : s.Kept) {t : PoolState} (hcounts : t.counts = s.counts)
    {had left : Str → Nat}
    (hlost : ∀ ds, t.executions ds + had ds = s.executions ds + left ds) :
    t.Balanced ↔ (∀ ds, s.Registered ds → left ds = had ds) ∧
      (t.queries = [] → ∀ ds, s.Registered ds → t.executions ds = 0) := by
  constructor
  · intro hbalanced
    constructor
    · intro ds hds
      obtain ⟨n, hn⟩ := Option.isSome_iff_exists.mp hds
      have := hbalanced.counted ds n (hcounts ▸ hn)
      have := h.balanced.counted ds n hn
      have := hlost ds
      omega
    · intro hnone ds hds
      obtain ⟨n, hn⟩ := Option.isSome_iff_exists.mp hds
      rw [← hbalanced.counted ds n (hcounts ▸ hn),
        hbalanced.idle hnone ds n (hcounts ▸ hn)]
  · rintro ⟨hsame, hidle⟩
    have hcounted : ∀ ds n, t.counts ds = some n → n = t.executions ds := by
      intro ds n hn
      rw [hcounts] at hn
      have := h.balanced.counted ds n hn
      have := hlost ds
      have := hsame ds (Option.isSome_of_mem hn)
      omega
    refine ⟨hcounted, fun hnone ds n hn => ?_⟩
    rw [hcounted ds n hn]
    exact hidle hnone ds (Option.isSome_of_mem (hcounts ▸ hn))

theorem finish_iff (h : s.Kept) (hopen : s.paths[i]? = some open')
    (ended : List Str) :
    (Balanced (s.step (.finish i ended)) ↔ s.Orderly (.finish i ended)) ∧
      (s.Orderly (.finish i ended) → Kept (s.step (.finish i ended))) := by
  simp only [step, Orderly, hopen, Option.mem_def, Option.some.injEq,
    forall_eq']
  split
  · next hall =>
      exact ⟨iff_of_true (h.close hopen).balanced (.inl hall), fun _ =>
        h.close hopen⟩
  rename_i hpart
  have hlost : ∀ ds, executions { s with
      paths := s.paths.set i { open'
        with inFlight := open'.inFlight.diff ended } } ds +
        open'.inFlight.count ds =
      s.executions ds + (open'.inFlight.diff ended).count ds :=
    fun ds => (executions_at (t := { s with paths := s.paths.set i _ }) hopen
      ds).2 _ rfl
  have hiff := h.lose_iff (t := { s with paths := s.paths.set i _ }) rfl hlost
  have hbalanced : (∀ ds, s.Registered ds →
      (open'.inFlight.diff ended).count ds = open'.inFlight.count ds) →
    Balanced { s with
        paths := s.paths.set i { open'
          with inFlight := open'.inFlight.diff ended } } := by
    refine fun hsame => hiff.mpr ⟨hsame, fun hnone ds hds => ?_⟩
    have := h.executions_idle hnone hds
    have := hlost ds
    have := hsame ds hds
    omega
  rw [or_iff_right hpart]
  refine ⟨⟨fun hafter => (hiff.mp hafter).1, hbalanced⟩, fun hsame => ?_⟩
  refine ⟨hbalanced hsame, fun other hother ds hds => ?_⟩
  rcases mem_or_eq_of_mem_set hother with hother | rfl
  · exact h.whole other hother ds hds
  · exact (hsame ds hds).trans (h.whole open' (mem_of_getElem? hopen) ds hds)

theorem leave_iff (h : s.Kept) (query : Nat) :
    (Balanced (s.step (.leave query)) ↔ s.Orderly (.leave query)) ∧
      (s.Orderly (.leave query) → Kept (s.step (.leave query))) := by
  have hlost : ∀ ds, (s.step (.leave query)).executions ds +
      executions { s with paths := s.paths.filter (!stays query ·) } ds =
        s.executions ds + 0 := executions_filter s (stays query)
  have hidle : (s.step (.leave query)).queries = [] ↔ ∀ q ∈ s.queries,
      q = query := by
    simp [step, filter_eq_nil_iff]
  have hiff : Balanced (s.step (.leave query)) ↔ s.Orderly (.leave query) := by
    rw [h.lose_iff (t := s.step (.leave query)) rfl hlost, hidle]
    simp only [eq_comm (a := 0), executions_eq_zero, Orderly, step, mem_filter,
      and_imp, Bool.not_eq_true']
    constructor
    · rintro ⟨hgone, hleft⟩
      exact ⟨fun p hp hstays ds hds => hgone ds hds p hp hstays,
        fun hlast p hp hstays ds hds => hleft hlast ds hds p hp hstays⟩
    · rintro ⟨hgone, hleft⟩
      exact ⟨fun ds hds p hp hstays => hgone p hp hstays ds hds,
        fun hlast ds hds p hp hstays => hleft hlast p hp hstays ds hds⟩
  exact ⟨hiff, fun horderly => ⟨hiff.mpr horderly, fun other hother =>
    h.whole other (mem_filter.mp hother).1⟩⟩

theorem step_iff (h : s.Kept) (e : PoolEvent) :
    (Balanced (s.step e) ↔ s.Orderly e) ∧ (s.Orderly e → Kept (s.step e)) := by
  cases e with
  | request query =>
    have hkept : Kept (s.step (.request query)) :=
      ⟨⟨h.balanced.counted, nofun⟩, h.whole⟩
    exact ⟨iff_of_true hkept.balanced trivial, fun _ => hkept⟩
  | start query path =>
    by_cases hstarts : s.Starts query path
    · exact h.start_iff hstarts
    · have hstep : s.step (.start query path) = s := if_neg hstarts
      rw [hstep]
      exact ⟨iff_of_true h.balanced fun hs => absurd hs hstarts, fun _ => h⟩
  | finish i ended =>
    cases hopen : s.paths[i]? with
    | none => simp [step, Orderly, hopen, h, h.balanced]
    | some open' => exact h.finish_iff hopen ended
  | leave query => exact h.leave_iff query

end PoolState.Kept

/-- Over a run the counts are those of the executions in flight, and zero while
no request is open, exactly as long as every event is orderly. -/
theorem poolCounts_balanced_iff (counts : PoolCounts)
    (hstart : ∀ ds n, counts ds = some n → n = 0) (events : List PoolEvent) :
    EveryStep PoolState.step (fun s e => PoolState.Balanced (s.step e))
    { counts } events ↔
      EveryStep PoolState.step PoolState.Orderly { counts } events := by
  have hkept : PoolState.Kept { counts } := ⟨⟨hstart, fun _ => hstart⟩, nofun⟩
  constructor
  · refine EveryStep.of_inv (fun s e hs hbalanced => ?_) hkept
    obtain ⟨hiff, hnext⟩ := hs.step_iff e
    exact ⟨hiff.mp hbalanced, hnext (hiff.mp hbalanced)⟩
  · refine EveryStep.of_inv (fun s e hs horderly => ?_) hkept
    obtain ⟨hiff, hnext⟩ := hs.step_iff e
    exact ⟨hiff.mpr horderly, hnext horderly⟩

def onePool : PoolState :=
  { counts := fun ds => if ds = "a" then some 0 else none }

theorem dropped_query_counted :
    let s := runSteps PoolState.step onePool [.request 7,
      .start 7 (.single "a"), .leave 7]
    s.queries = [] ∧ s.paths.length = 0 ∧ s.counts "a" = some 1 := by decide

theorem finished_query_released :
    EveryStep PoolState.step (fun s e => PoolState.Balanced (s.step e)) onePool
      [.request 7, .start 7 (.task "a"), .finish 0 ["a"], .leave 7] := by
  refine (poolCounts_balanced_iff _ ?_ _).mpr
    ⟨trivial, fun _ => ⟨fun _ _ => rfl, nofun⟩, ?_,
    ⟨nofun, fun _ => nofun⟩, trivial⟩
  · intro ds n hn
    split at hn <;> cases hn
    rfl
  · intro open' hopen
    cases hopen
    exact .inl rfl

end Fuse.Server
