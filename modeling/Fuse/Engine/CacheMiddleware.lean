import Fuse.Core.Arrow
import Fuse.Engine.SubQueryKey
import Fuse.Foundation.Caches
import Fuse.Foundation.Runs

/-!
# The caching connector wrapper

`CachingConnectorWrapper` of `cache_middleware.rs` answers a sub-query from a
shared `QueryCache` if it holds an answer under the sub-query's key.  The key
leaves out `having`, `offset` and `passthrough`, and joins the projections with
commas, so the answer may be that to another sub-query.
-/

namespace Fuse.Engine

open Foundation Fuse.Core

section Wrapper

variable {V κ : Type} [DecidableEq κ] [PlainChars] [FloatDebug]

abbrev Answer (V : Type) := Except ConnectorError (List (RecordBatch V))

abbrev QueryCache (V κ : Type) := LruCache κ (List (RecordBatch V))

structure CachingConnectorWrapper (V : Type) where
  id : Str
  inner : SubQuery → Answer V
  ttl : Nat

/-- What the cache computes on its own: `cache_key` and `batches_bytes`. -/
structure CacheOps (V κ : Type) where
  cacheKey : Str → Str → κ
  batchesBytes : List (RecordBatch V) → Nat

variable (ops : CacheOps V κ)

namespace CachingConnectorWrapper

variable (w : CachingConnectorWrapper V)

def makeKey (query : SubQuery) : κ := ops.cacheKey w.id (queryText query)

def execute (now : Nat) (query : SubQuery) (cache : QueryCache V κ) :
    Answer V × QueryCache V κ :=
  let key := w.makeKey ops query
  let (cached, cache) := cache.get now key
  match cached with
  | some batches => (.ok batches, cache)
  | none =>
    match w.inner query with
    | .error e => (.error e, cache)
    | .ok batches =>
      (.ok batches, cache.put now key batches (ops.batchesBytes batches) w.ttl)

variable {ops w} {now : Nat} {query : SubQuery} {cache : QueryCache V κ}

variable {batches : List (RecordBatch V)}

theorem execute_hit
    (hget : (cache.get now (w.makeKey ops query)).1 = some batches) :
    w.execute ops now query cache = (.ok batches,
      (cache.get now (w.makeKey ops query)).2) := by
  simp [execute, hget]

theorem execute_error (hget : (cache.get now (w.makeKey ops query)).1 = none)
    {e : ConnectorError} (hinner : w.inner query = .error e) :
    w.execute ops now query cache = (.error e,
      (cache.get now (w.makeKey ops query)).2) := by
  simp [execute, hget, hinner]

theorem execute_miss (hget : (cache.get now (w.makeKey ops query)).1 = none)
    (hinner : w.inner query = .ok batches) : w.execute ops now query cache =
      (.ok batches, (cache.get now (w.makeKey ops query)).2.put now
        (w.makeKey ops query) batches (ops.batchesBytes batches) w.ttl) := by
  simp [execute, hget, hinner]

end CachingConnectorWrapper

/-! ## Runs -/

structure WrappedConnectors (V : Type) where
  inner : Str → SubQuery → Answer V
  ttl : Str → Nat

def WrappedConnectors.wrapper (pool : WrappedConnectors V) (id : Str) :
    CachingConnectorWrapper V :=
  ⟨id, pool.inner id, pool.ttl id⟩

inductive CacheUse where
  | execute (id : Str) (query : SubQuery)
  | evictExpired
  | clear

structure CacheCall where
  now : Nat
  use : CacheUse

def CacheCall.SentTo (id : Str) (c : CacheCall) : Prop :=
  ∃ query, c.use = .execute id query

variable (pool : WrappedConnectors V)

def afterCall (c : CacheCall) (cache : QueryCache V κ) : QueryCache V κ :=
  match c.use with
  | .execute id query => ((pool.wrapper id).execute ops c.now query cache).2
  | .evictExpired => (cache.evictExpired c.now).2
  | .clear => cache.clear

def AnsweredAsInner (cache : QueryCache V κ) (c : CacheCall) : Prop :=
  ∀ id query, c.use = .execute id query →
    ((pool.wrapper id).execute ops c.now query cache).1 = pool.inner id query

def AsksFor (queries : Set SubQuery) (c : CacheCall) : Prop :=
  ∀ id query, c.use = .execute id query → query ∈ queries

def SentWithinTtl (calls : List CacheCall) : Prop :=
  ∀ c ∈ calls, ∀ c' ∈ calls, ∀ id, c.SentTo id → c'.SentTo id →
    c'.now - c.now ≤ pool.ttl id

/-- The wrapper cannot be told from the connectors by sub-queries in
`queries`, whatever the connectors answer. -/
def Transparent (queries : Set SubQuery) : Prop :=
  ∀ (pool : WrappedConnectors V) (maxEntries maxBytes : Nat)
    (calls : List CacheCall), SentWithinTtl pool calls →
    (∀ c ∈ calls, AsksFor queries c) →
      EveryStep (afterCall ops pool) (AnsweredAsInner ops pool)
        (LruCache.withLimits maxEntries maxBytes) calls

/-! ## Keys that tell sub-queries apart -/

def HoldsAnswers (queries : Set SubQuery) (cache : QueryCache V κ) : Prop :=
  ∀ e ∈ cache.entries, ∀ id, ∀ query ∈ queries,
    e.key = (pool.wrapper id).makeKey ops query →
      pool.inner id query = .ok e.value

variable {ops pool} {queries : Set SubQuery}

omit [DecidableEq κ] in
theorem HoldsAnswers.mono {cache cache' : QueryCache V κ}
    (h : HoldsAnswers ops pool queries cache)
    (hsub : cache'.entries ⊆ cache.entries) :
    HoldsAnswers ops pool queries cache' :=
  fun e he => h e (hsub he)

def KeysDetermine (ops : CacheOps V κ) (queries : Set SubQuery) : Prop :=
  ∀ id id', ∀ query ∈ queries, ∀ query' ∈ queries,
    ops.cacheKey id (queryText query) = ops.cacheKey id' (queryText query') →
      id = id' ∧ query = query'

variable {cache : QueryCache V κ} {query query' : SubQuery}

private theorem execute_answers (hkeys : KeysDetermine ops queries)
    (h : HoldsAnswers ops pool queries cache) {query : SubQuery}
    (hquery : query ∈ queries) (now : Nat) (id : Str) :
    ((pool.wrapper id).execute ops now query cache).1 = pool.inner id query ∧
      HoldsAnswers ops pool queries
      ((pool.wrapper id).execute ops now query cache).2 := by
  have hread :=
    h.mono (LruCache.get_subset now ((pool.wrapper id).makeKey ops query))
  cases hget : (cache.get now ((pool.wrapper id).makeKey ops query)).1 with
  | some batches =>
    obtain ⟨e, he, hkey, rfl⟩ := LruCache.mem_of_get hget
    rw [CachingConnectorWrapper.execute_hit hget]
    exact ⟨(h e he id query hquery hkey).symm, hread⟩
  | none =>
    cases hinner : pool.inner id query with
    | error e =>
      rw [CachingConnectorWrapper.execute_error hget hinner]
      exact ⟨rfl, hread⟩
    | ok batches =>
      rw [CachingConnectorWrapper.execute_miss hget hinner]
      refine ⟨rfl, fun e he id' query' hquery' hkey => ?_⟩
      -- a new entry is found by its own sub-query only
      rcases LruCache.mem_put he with rfl | hold
      · obtain ⟨rfl, rfl⟩ := hkeys _ _ query hquery query' hquery' hkey
        exact hinner
      · exact hread e hold id' query' hquery' hkey

theorem afterCall_answers (hkeys : KeysDetermine ops queries)
    (cache : QueryCache V κ)
    (c : CacheCall) (h : HoldsAnswers ops pool queries cache)
    (hc : AsksFor queries c) :
    AnsweredAsInner ops pool cache c ∧
      HoldsAnswers ops pool queries (afterCall ops pool c cache) := by
  obtain ⟨now, use⟩ := c
  cases use with
  | execute id query =>
    obtain ⟨hanswer, hafter⟩ := execute_answers hkeys h (hc id query rfl) now id
    refine ⟨?_, hafter⟩
    rintro id' query' ⟨⟩
    exact hanswer
  | evictExpired =>
    exact ⟨fun _ _ heq => (by cases heq),
      h.mono (LruCache.evictExpired_subset now)⟩
  | clear =>
    exact ⟨fun _ _ heq => (by cases heq), fun e he =>
      absurd he List.not_mem_nil⟩

/-- Keys that determine their sub-queries make the wrapper transparent, at any
times. -/
theorem everyStep_answered (hkeys : KeysDetermine ops queries)
    (maxEntries maxBytes : Nat)
    {calls : List CacheCall} (hcalls : ∀ c ∈ calls, AsksFor queries c) :
    EveryStep (afterCall ops pool) (AnsweredAsInner ops pool)
      (LruCache.withLimits maxEntries maxBytes) calls := by
  have hstart : HoldsAnswers ops pool queries
      (LruCache.withLimits maxEntries maxBytes) :=
    fun e he => absurd he List.not_mem_nil
  exact EveryStep.of_inv (afterCall_answers hkeys) hstart
    (EveryStep.of_forall hcalls)

/-! ## Keys that do not -/

def noRows : RecordBatch V := ⟨[], [], by simp⟩

def spotting (query : SubQuery) : WrappedConnectors V where
  inner _ q := .ok (if q = query then [noRows] else [])
  ttl _ := 0

private theorem execute_again {w : CachingConnectorWrapper V}
    (hsame : queryText query = queryText query')
    {now : Nat} (hget : (cache.get now (w.makeKey ops query)).1 = none)
    {batches : List (RecordBatch V)} (hinner : w.inner query = .ok batches) :
    (w.execute ops now query' (w.execute ops now query cache).2).1 =
      .ok batches := by
  have hkey : w.makeKey ops query = w.makeKey ops query' := by
    rw [CachingConnectorWrapper.makeKey, hsame, CachingConnectorWrapper.makeKey]
  rw [CachingConnectorWrapper.execute_miss hget hinner, hkey]
  have hlive : now - now ≤ w.ttl := by omega
  rw [CachingConnectorWrapper.execute_hit (LruCache.get_put hlive)]

theorem eq_of_transparent (h : Transparent ops queries)
    (hquery : query ∈ queries)
    (hquery' : query' ∈ queries) (hsame : SameKey query query') :
    query = query' := by
  by_contra hne
  have htext := (queryText_eq_iff query query').mpr hsame
  let calls : List CacheCall :=
    [⟨0, .execute [] query⟩, ⟨0, .execute [] query'⟩]
  have hmem : ∀ c ∈ calls, c = ⟨0, .execute [] query⟩ ∨
      c = ⟨0, .execute [] query'⟩ := by
    intro c hc
    simpa [calls] using hc
  have hwithin : SentWithinTtl (spotting query : WrappedConnectors V)
      calls := by
    intro c hc c' hc' _ _ _
    have hnow : c'.now = 0 := by rcases hmem c' hc' with rfl | rfl <;> rfl
    omega
  have hcalls : ∀ c ∈ calls, AsksFor queries c := by
    intro c hc id q hq
    rcases hmem c hc with rfl | rfl
    · cases hq
      exact hquery
    · cases hq
      exact hquery'
  -- the second call is answered as the first
  have hsecond := (h (spotting query) 1 1 calls hwithin hcalls).2.1
    [] query' rfl
  have hfirst : (spotting query : WrappedConnectors V).inner [] query =
      .ok [noRows] := by
    simp [spotting]
  have hother : (spotting query : WrappedConnectors V).inner [] query' =
      .ok [] := by
    simp [spotting, Ne.symm hne]
  have hagain : (((spotting query).wrapper []).execute ops 0 query'
      (((spotting query).wrapper []).execute ops 0 query
        (LruCache.withLimits 1 1)).2).1 = .ok [noRows] :=
    execute_again htext rfl hfirst
  rw [hother] at hsecond
  have heq := hagain.symm.trans hsecond
  cases heq

/-- The wrapper cannot be told from the connectors exactly when no two of the
sub-queries in use agree in what the key is made of. -/
theorem wrapper_transparent_iff
    (hhash : ∀ id id' text text', ops.cacheKey id text =
      ops.cacheKey id' text' → id = id' ∧
      text = text') (queries : Set SubQuery) :
    Transparent ops queries ↔ ∀ query ∈ queries, ∀ query' ∈ queries,
        SameKey query query' → query = query' := by
  refine ⟨fun h query hquery query' hquery' hsame =>
    eq_of_transparent h hquery hquery' hsame, fun h => ?_⟩
  have hkeys : KeysDetermine ops queries := by
    intro id id' query hquery query' hquery' hkey
    obtain ⟨hid, htext⟩ := hhash _ _ _ _ hkey
    exact ⟨hid, h query hquery query' hquery'
      ((queryText_eq_iff query query').mp htext)⟩
  intro pool maxEntries maxBytes calls _ hcalls
  exact everyStep_answered hkeys maxEntries maxBytes hcalls

end Wrapper

section Examples

attribute [local instance] asciiPlain bitsDebug

def pairedKeys : CacheOps Nat (Str × Str) where
  cacheKey id text := (id, text)
  batchesBytes := fun batches => 8 * (batches.flatMap (·.rows)).length

def logsPage (offset : Nat) : SubQuery where
  table := "logs"
  sort := [⟨"ts".toList, false⟩]
  limit := some 2
  offset := if offset = 0 then none else some offset

theorem first_pages_transparent :
    Transparent pairedKeys {q | ∃ n, q =
      { logsPage 0 with limit := some n }} := by
  refine (wrapper_transparent_iff ?_ _).mpr ?_
  · intro id id' text text' h
    exact ⟨congrArg Prod.fst h, congrArg Prod.snd h⟩
  · rintro q ⟨n, rfl⟩ q' ⟨n', rfl⟩ h
    have hlimit : some n = some n' := h.limit
    rw [Option.some.inj hlimit]

def numberedRows (ids : List Nat) : RecordBatch Nat where
  schema := [⟨"id".toList, .int64, false⟩]
  rows := ids.map fun n => [some n]
  fits := by simp [rowFits]

def logsConnector : CachingConnectorWrapper Nat where
  id := "os"
  inner q := .ok [numberedRows
    ((([1, 2, 3, 4] : List Nat).drop (q.offset.getD 0)).take (q.limit.getD 4))]
  ttl := 30

/-- Within the TTL, the second page is answered with the rows of the first. -/
theorem second_page_repeats_first :
    (logsConnector.inner (logsPage 2) = .ok [numberedRows [3, 4]]) ∧
      (logsConnector.execute pairedKeys 5 (logsPage 2)
        (logsConnector.execute pairedKeys 0 (logsPage 0)
          (LruCache.withLimits 1024 268435456)).2).1 =
        .ok [numberedRows [1, 2]] ∧
      numberedRows [1, 2] ≠ numberedRows [3, 4] := by decide +kernel

end Examples

end Fuse.Engine
