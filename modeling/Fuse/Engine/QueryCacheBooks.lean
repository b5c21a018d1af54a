import Fuse.Engine.CacheMiddleware
import Fuse.Foundation.RecencyRuns

/-!
# The books of the query cache

`QueryCache` of `cache.rs` keeps a map of entries, a queue of keys and a count
of bytes.  After every sequence of calls the three agree, the queue is in the
order of last use, and a read finds the result that was stored last under its
key unless it has expired or been evicted or cleared.
-/

namespace Fuse.Engine

open Foundation Fuse.Core List

section Calls

variable {V κ : Type} [DecidableEq κ] (ops : CacheOps V κ)

inductive QueryCacheUse (V κ : Type) where
  | get (key : κ)
  | put (key : κ) (batches : List (RecordBatch V)) (ttl : Nat)
  | evictExpired
  | clear

structure QueryCacheCall (V κ : Type) where
  now : Nat
  use : QueryCacheUse V κ

/-- `put` computes the size of the batches itself. -/
def QueryCacheCall.lruCall (call : QueryCacheCall V κ) :
    LruCall κ (List (RecordBatch V)) where
  now := call.now
  use := match call.use with
    | .get key => .get key
    | .put key batches ttl => .put key batches (ops.batchesBytes batches) ttl
    | .evictExpired => .evictExpired
    | .clear => .clear

def afterCacheCall (call : QueryCacheCall V κ) (cache : QueryCache V κ) :
    QueryCache V κ :=
  cache.after (call.lruCall ops)

def cacheAfter (maxEntries maxBytes : Nat) (calls : List (QueryCacheCall V κ)) :
    QueryCache V κ :=
  runSteps (afterCacheCall ops) (LruCache.withLimits maxEntries maxBytes) calls

def cacheUses (maxEntries maxBytes : Nat) (calls : List (QueryCacheCall V κ)) :
    List κ :=
  LruCache.uses (LruCache.withLimits maxEntries maxBytes)
    (calls.map (·.lruCall ops))

/-- There is room for new bytes when only the keys of `rest` stay. -/
def RoomWith (cache : QueryCache V κ) (newBytes : Nat) (rest : List κ) : Prop :=
  rest.length < cache.maxEntries ∧ (rest = [] ∨
    Recency.bytes (cache.entries.filter (·.key ∈ rest)) + newBytes ≤
    cache.maxBytes)

def LastPut (maxEntries maxBytes : Nat) (calls : List (QueryCacheCall V κ))
    (now : Nat) (key : κ) (batches : List (RecordBatch V)) (ttl : Nat) : Prop :=
  ∃ before rest, calls = before ++ ⟨now, .put key batches ttl⟩ :: rest ∧
    EveryStep (afterCacheCall ops) (fun cache call =>
      LruCache.Spares key cache (call.lruCall ops))
      (cacheAfter ops maxEntries maxBytes
        (before ++ [⟨now, .put key batches ttl⟩])) rest

structure BooksKept (maxEntries maxBytes : Nat)
    (calls : List (QueryCacheCall V κ)) (cache : QueryCache V κ) : Prop where
  lru_nodup : cache.lru.Nodup
  entries_nodup : (cache.entries.map (·.key)).Nodup
  lru_entries : ∀ key, key ∈ cache.lru ↔ key ∈ cache.entries.map (·.key)
  /-- `dedup` keeps the last occurrence of each key. -/
  lru_order : cache.lru.Sublist (cacheUses ops maxEntries maxBytes calls).dedup
  total_bytes : cache.totalBytes = Recency.bytes cache.entries
  max_entries : cache.entries.length ≤ cache.maxEntries
  evicts : ∀ now key batches newBytes ttl, key ∉ cache.lru → ∃ n,
    (cache.put now key batches newBytes ttl).lru = cache.lru.drop n ++ [key] ∧
      RoomWith cache newBytes (cache.lru.drop n) ∧
      ∀ m < n, ¬ RoomWith cache newBytes (cache.lru.drop m)
  overwrites : ∀ now key batches newBytes ttl, key ∈ cache.lru →
    (cache.put now key batches newBytes ttl).lru =
      cache.lru.filter (· ≠ key) ++ [key]
  reads : ∀ now, (∀ call ∈ calls, call.now ≤ now) → ∀ key batches,
    (cache.get now key).1 = some batches ↔ ∃ created ttl,
      LastPut ops maxEntries maxBytes calls created key batches ttl ∧
        now - created ≤ ttl

end Calls

section Books

variable {V κ : Type} [DecidableEq κ] {ops : CacheOps V κ}
  {maxEntries maxBytes : Nat}
  {cache : QueryCache V κ} {s : Recency κ (List (RecordBatch V))}

open LruCache (Books)

theorem roomWith_iff (h : Books maxEntries maxBytes cache s)
    (newBytes n : Nat) :
    RoomWith cache newBytes (cache.lru.drop n) ↔
      Recency.Fits maxEntries maxBytes newBytes (s.drop n) := by
  have hbytes :
    Recency.bytes (cache.entries.filter (·.key ∈ cache.lru.drop n)) =
      Recency.bytes (s.drop n) := by
    rw [h.order, Recency.bytes_perm (h.entries.filter _),
      Recency.filter_keys_drop h.distinct]
  have hlength : (cache.lru.drop n).length = (s.drop n).length := by
    rw [h.order, Recency.keys, ← List.map_drop, List.length_map]
  have hempty : cache.lru.drop n = [] ↔ s.drop n = [] := by
    rw [← List.length_eq_zero_iff, hlength, List.length_eq_zero_iff]
  rw [RoomWith, hbytes, hlength, hempty, h.maxEntries, h.maxBytes]
  simp only [Recency.Fits, Recency.tooMany, Recency.tooLarge,
    decide_eq_false_iff_not, Nat.not_le,
    Bool.and_eq_false_iff, Nat.not_lt, Bool.not_eq_false', List.isEmpty_iff]
  exact and_congr_right fun _ => or_comm

theorem put_new (hpos : 0 < maxEntries) (h : Books maxEntries maxBytes cache s)
    (now : Nat) {key : κ} (batches : List (RecordBatch V)) (newBytes ttl : Nat)
    (hnew : key ∉ cache.lru) : ∃ n,
    (cache.put now key batches newBytes ttl).lru = cache.lru.drop n ++ [key] ∧
      RoomWith cache newBytes (cache.lru.drop n) ∧
      ∀ m < n, ¬ RoomWith cache newBytes (cache.lru.drop m) := by
  obtain ⟨n, hdrop, hfits, hminimal⟩ :=
    Recency.makeRoom_eq_drop hpos maxBytes newBytes s
  have hput := h.put hpos ⟨key, batches, now, ttl, newBytes⟩
  rw [h.order] at hnew
  refine ⟨n, ?_, (roomWith_iff h newBytes n).mpr hfits, fun m hm =>
    mt (roomWith_iff h newBytes m).mp (hminimal m hm)⟩
  rw [hput.order, Recency.put, if_neg hnew, Recency.keys_concat, hdrop, h.order,
    Recency.keys, map_drop]
  rfl

theorem put_old (hpos : 0 < maxEntries) (h : Books maxEntries maxBytes cache s)
    (now : Nat) {key : κ} (batches : List (RecordBatch V)) (newBytes ttl : Nat)
    (hold : key ∈ cache.lru) :
    (cache.put now key batches newBytes ttl).lru = cache.lru.filter (· ≠ key) ++
    [key] := by
  have hput := h.put hpos ⟨key, batches, now, ttl, newBytes⟩
  rw [h.order] at hold
  rw [hput.order, Recency.put, if_pos hold, Recency.keys_concat, h.filter_lru]

omit [DecidableEq κ] in
theorem lruCall_eq_putCall {call : QueryCacheCall V κ}
    {e : CachedResult κ (List (RecordBatch V))} :
    call.lruCall ops = Recency.putCall e ↔
    call = ⟨e.created, .put e.key e.value e.ttl⟩ ∧
        e.estimatedBytes = ops.batchesBytes e.value := by
  obtain ⟨now, use⟩ := call
  obtain ⟨key, value, created, ttl, bytes⟩ := e
  cases use with
  | put key' batches ttl' =>
    simp only [QueryCacheCall.lruCall, Recency.putCall, LruCall.mk.injEq,
      LruUse.put.injEq, QueryCacheCall.mk.injEq, QueryCacheUse.put.injEq]
    constructor
    · rintro ⟨rfl, rfl, rfl, rfl, rfl⟩
      exact ⟨⟨rfl, rfl, rfl, rfl⟩, rfl⟩
    · rintro ⟨⟨rfl, rfl, rfl, rfl⟩, rfl⟩
      exact ⟨rfl, rfl, rfl, rfl, rfl⟩
  | _ => simp [QueryCacheCall.lruCall, Recency.putCall]

variable (ops maxEntries maxBytes)

def recencyAfter (calls : List (QueryCacheCall V κ)) :
    Recency κ (List (RecordBatch V)) :=
  runSteps (Recency.after (max maxEntries 1) (max maxBytes 1)) []
    (calls.map (·.lruCall ops))

theorem cacheAfter_books (calls : List (QueryCacheCall V κ)) :
    Books (max maxEntries 1) (max maxBytes 1)
    (cacheAfter ops maxEntries maxBytes calls)
      (recencyAfter ops maxEntries maxBytes calls) := by
  have hnew : Books (max maxEntries 1) (max maxBytes 1)
      (LruCache.withLimits maxEntries maxBytes : QueryCache V κ) [] :=
    Books.withLimits
  have hrun := hnew.run (by omega) (calls.map (·.lruCall ops))
  rw [runSteps_map] at hrun
  exact hrun

theorem spared_iff (calls rest : List (QueryCacheCall V κ)) (key : κ) :
    EveryStep (afterCacheCall ops) (fun cache call =>
      LruCache.Spares key cache (call.lruCall ops))
        (cacheAfter ops maxEntries maxBytes calls) rest ↔
      EveryStep (Recency.after (max maxEntries 1) (max maxBytes 1))
        (Recency.Spares (max maxEntries 1) (max maxBytes 1) key)
        (recencyAfter ops maxEntries maxBytes calls)
            (rest.map (·.lruCall ops)) := by
  have hbooks := cacheAfter_books ops maxEntries maxBytes calls
  rw [← hbooks.everyStep_spares_iff (by omega), everyStep_map]
  rfl

private theorem stored_iff (calls : List (QueryCacheCall V κ))
    (e : CachedResult κ (List (RecordBatch V))) :
    Recency.Stored (max maxEntries 1) (max maxBytes 1)
    (calls.map (·.lruCall ops)) e ↔
      LastPut ops maxEntries maxBytes calls e.created e.key e.value e.ttl ∧
        e.estimatedBytes = ops.batchesBytes e.value := by
  constructor
  · rintro ⟨before', rest', hcalls, hspares⟩
    obtain ⟨before, behind, rfl, rfl, hbehind⟩ := map_eq_append_iff.mp hcalls
    obtain ⟨call, rest, rfl, hcall, rfl⟩ := map_eq_cons_iff.mp hbehind
    obtain ⟨rfl, hbytes⟩ := lruCall_eq_putCall.mp hcall
    refine ⟨⟨before, rest, rfl, (spared_iff ..).mpr ?_⟩, hbytes⟩
    rw [recencyAfter, map_append, map_singleton, hcall]
    exact hspares
  · rintro ⟨⟨before, rest, rfl, hspares⟩, hbytes⟩
    have hcall := lruCall_eq_putCall.mpr ⟨rfl, hbytes⟩
    refine ⟨before.map (·.lruCall ops), rest.map (·.lruCall ops), ?_, ?_⟩
    · rw [map_append, map_cons, hcall]
    · rw [spared_iff, recencyAfter, map_append, map_singleton, hcall] at hspares
      exact hspares

private theorem get_cacheAfter (calls : List (QueryCacheCall V κ)) {now : Nat}
    (htimes : ∀ call ∈ calls, call.now ≤ now) (key : κ)
    (batches : List (RecordBatch V)) :
    ((cacheAfter ops maxEntries maxBytes calls).get now key).1 = some batches ↔
      ∃ created ttl, LastPut ops maxEntries maxBytes calls created key
      batches ttl ∧ now - created ≤ ttl := by
  have hbooks := cacheAfter_books ops maxEntries maxBytes calls
  have htimes' : ∀ call ∈ calls.map (·.lruCall ops), call.now ≤ now := by
    intro call hcall
    obtain ⟨source, hsource, rfl⟩ := mem_map.mp hcall
    exact htimes source hsource
  rw [(hbooks.get now key).1, recencyAfter,
    Recency.get_run_iff (by omega) htimes']
  constructor
  · rintro ⟨e, hstored, rfl, rfl, hlive⟩
    refine ⟨e.created, e.ttl, ((stored_iff ..).mp hstored).1, ?_⟩
    simpa [CachedResult.isExpired] using hlive
  · rintro ⟨created, ttl, hput, hlive⟩
    refine ⟨⟨key, batches, created, ttl, ops.batchesBytes batches⟩,
      (stored_iff ..).mpr ⟨hput, rfl⟩, rfl, rfl, ?_⟩
    simpa [CachedResult.isExpired] using hlive

end Books

/-- The cache keeps its books, over every sequence of calls. -/
theorem queryCache_booksKept {V κ : Type} [DecidableEq κ] (ops : CacheOps V κ)
    (maxEntries maxBytes : Nat) (calls : List (QueryCacheCall V κ)) :
    BooksKept ops maxEntries maxBytes calls
    (cacheAfter ops maxEntries maxBytes calls) := by
  have hpos : 0 < max maxEntries 1 := by omega
  have hbooks := cacheAfter_books ops maxEntries maxBytes calls
  have hkeys :
    ((cacheAfter ops maxEntries maxBytes calls).entries.map (·.key)).Perm
      (recencyAfter ops maxEntries maxBytes calls).keys := hbooks.entries.map _
  exact {
    lru_nodup := hbooks.order ▸ hbooks.distinct
    entries_nodup := hkeys.nodup_iff.mpr hbooks.distinct
    lru_entries := fun key => by rw [hbooks.order, hkeys.mem_iff]
    lru_order := by
      rw [hbooks.order, cacheUses, LruCache.Books.withLimits.uses_eq hpos]
      exact Recency.keys_run_sublist hpos _
    total_bytes := hbooks.total.trans (Recency.bytes_perm hbooks.entries).symm
    max_entries := by
      rw [hbooks.entries.length_eq, hbooks.maxEntries]
      exact Recency.length_run hpos _
    evicts := fun now _ batches newBytes ttl hnew =>
      put_new hpos hbooks now batches newBytes ttl hnew
    overwrites := fun now _ batches newBytes ttl hold =>
      put_old hpos hbooks now batches newBytes ttl hold
    reads := fun _ htimes key batches =>
      get_cacheAfter ops maxEntries maxBytes calls htimes key batches }

section Budget

variable {V κ : Type} [DecidableEq κ] (ops : CacheOps V κ)

def WithinBudget (cache : QueryCache V κ) : Prop :=
  cache.totalBytes ≤ cache.maxBytes ∨ cache.entries.length = 1

/-- A result that replaces another fits beside the other entries, or there are
none. -/
def OverwriteFits (cache : QueryCache V κ) (call : QueryCacheCall V κ) : Prop :=
  match call.use with
  | .put key batches _ =>
    key ∈ cache.lru → Recency.bytes (cache.entries.filter (·.key ≠ key)) +
      ops.batchesBytes batches ≤ cache.maxBytes ∨ ∀ e ∈ cache.entries,
        e.key = key
  | _ => True

def Budgeted (maxEntries maxBytes : Nat) (cache : QueryCache V κ) : Prop :=
  ∃ s, LruCache.Books maxEntries maxBytes cache s ∧ Recency.Within maxBytes s

theorem budget_step {maxEntries maxBytes : Nat} (hpos : 0 < maxEntries)
    {cache : QueryCache V κ}
    (h : Budgeted maxEntries maxBytes cache) (call : QueryCacheCall V κ) :
    (WithinBudget (afterCacheCall ops call cache) ↔
      OverwriteFits ops cache call) ∧
      (WithinBudget (afterCacheCall ops call cache) →
        Budgeted maxEntries maxBytes (afterCacheCall ops call cache)) := by
  obtain ⟨s, hbooks, hwithin⟩ := h
  have hafter := hbooks.after hpos (call.lruCall ops)
  have hkept : WithinBudget (afterCacheCall ops call cache) ↔
      Recency.Within maxBytes
      (s.after maxEntries maxBytes (call.lruCall ops)) := by
    rw [WithinBudget, afterCacheCall, hafter.total, hafter.maxBytes,
      hafter.entries.length_eq, Recency.Within]
  refine ⟨?_, fun h => ⟨_, hafter, hkept.mp h⟩⟩
  rw [hkept, Recency.within_after_iff hpos hbooks.distinct hwithin]
  obtain ⟨now, use⟩ := call
  cases use with
  | put key batches ttl =>
    simp only [OverwriteFits, QueryCacheCall.lruCall, Recency.OverwriteFits,
      hbooks.order,
      hbooks.maxBytes, Recency.bytes_perm (hbooks.entries.filter _),
      Recency.without,
      filter_eq_nil_iff, hbooks.entries.mem_iff, decide_eq_true_eq, not_not]
  | _ => exact Iff.rfl

/-- `evict_until_fits` is called for new keys only: the budget is kept over a
run exactly as long as no overwriting result breaks it. -/
theorem queryCache_budget_iff (maxEntries maxBytes : Nat)
    (calls : List (QueryCacheCall V κ)) :
    EveryStep (afterCacheCall ops) (fun cache call =>
      WithinBudget (afterCacheCall ops call cache))
        (LruCache.withLimits maxEntries maxBytes) calls ↔
      EveryStep (afterCacheCall ops) (OverwriteFits ops)
        (LruCache.withLimits maxEntries maxBytes) calls := by
  have hpos : 0 < max maxEntries 1 := by omega
  have hstart : Budgeted (max maxEntries 1) (max maxBytes 1)
      (LruCache.withLimits maxEntries maxBytes : QueryCache V κ) :=
    ⟨[], LruCache.Books.withLimits, .inl (Nat.zero_le _)⟩
  constructor
  · refine EveryStep.of_inv (fun cache call hs hkept => ?_) hstart
    obtain ⟨hiff, hnext⟩ := budget_step ops hpos hs call
    exact ⟨hiff.mp hkept, hnext hkept⟩
  · refine EveryStep.of_inv (fun cache call hs hfits => ?_) hstart
    obtain ⟨hiff, hnext⟩ := budget_step ops hpos hs call
    exact ⟨hiff.mpr hfits, hnext (hiff.mpr hfits)⟩

def batchCount : CacheOps Nat Nat where
  cacheKey _ _ := 0
  batchesBytes := List.length

def emptyBatches (n : Nat) : List (RecordBatch Nat) :=
  List.replicate n ⟨[], [], nofun⟩

/-- Key 2 is stored again with three bytes more than the budget has left. -/
theorem overwrite_exceeds_budget :
    let cache := cacheAfter batchCount 10 4 [⟨0, .put 1 (emptyBatches 2) 60⟩,
      ⟨0, .put 2 (emptyBatches 2) 60⟩, ⟨0, .put 2 (emptyBatches 5) 60⟩]
    cache.maxBytes = 4 ∧ cache.totalBytes = 7 ∧ cache.lru = [1, 2] := by decide

end Budget

end Fuse.Engine
