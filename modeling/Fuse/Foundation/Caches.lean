import Mathlib.Data.List.Basic

/-!
# Caches

Bounded maps whose entries expire.  Time is a counter that the caller supplies.

Reading a `TtlCache` removes an expired entry; writing into a full one drops the
expired entries and, if that is not enough, one of the oldest.
-/

namespace Fuse.Foundation

open List

structure CacheEntry (κ ν : Type) where
  key : κ
  value : ν
  created : Nat
  deriving DecidableEq, Repr

structure TtlCache (κ ν : Type) where
  ttl : Nat
  maxSize : Nat
  entries : List (CacheEntry κ ν) := []
  deriving DecidableEq, Repr

namespace TtlCache

variable {κ ν : Type} [DecidableEq κ] (c : TtlCache κ ν)

def fresh (now : Nat) (e : CacheEntry κ ν) : Bool := now - e.created < c.ttl

def find (key : κ) : Option (CacheEntry κ ν) := c.entries.find? (·.key = key)

def remove (key : κ) : TtlCache κ ν :=
  { c with entries := c.entries.filter (·.key ≠ key) }

def get (now : Nat) (key : κ) : Option ν × TtlCache κ ν :=
  match c.find key with
  | none => (none, c)
  | some e => if c.fresh now e then (some e.value, c) else (none, c.remove key)

def oldest : List (CacheEntry κ ν) → Option (CacheEntry κ ν)
  | [] => none
  | e :: es =>
    match oldest es with
    | none => some e
    | some o => if e.created ≤ o.created then some e else some o

def makeRoom (now : Nat) : List (CacheEntry κ ν) :=
  if c.maxSize ≤ c.entries.length then
    let live := c.entries.filter (c.fresh now)
    if c.maxSize ≤ live.length then
      match oldest live with
      | some o => live.filter (·.key ≠ o.key)
      | none => live
    else live
  else c.entries

def insert (now : Nat) (key : κ) (value : ν) : TtlCache κ ν :=
  { c with entries := ⟨key, value, now⟩ ::
    (c.makeRoom now).filter (·.key ≠ key) }

variable {c}

theorem mem_of_get {now : Nat} {key : κ} {v : ν}
    (h : (c.get now key).1 = some v) :
    ∃ e ∈ c.entries, e.key = key ∧ e.value = v := by
  unfold get at h
  cases hfind : c.find key with
  | none => simp [hfind] at h
  | some e =>
    have hkey := find?_some hfind
    refine ⟨e, mem_of_find?_eq_some hfind, by simpa using hkey, ?_⟩
    simp only [hfind] at h
    split at h
    · simpa using h
    · cases h

theorem get_subset (now : Nat) (key : κ) :
    (c.get now key).2.entries ⊆ c.entries := by
  unfold get
  split
  · exact List.Subset.refl _
  · split
    · exact List.Subset.refl _
    · exact filter_subset_self _

private theorem makeRoom_subset (now : Nat) : c.makeRoom now ⊆ c.entries := by
  unfold makeRoom
  split
  · dsimp only
    split
    · split
      · exact List.Subset.trans (filter_subset_self _) (filter_subset_self _)
      · exact filter_subset_self _
    · exact filter_subset_self _
  · exact List.Subset.refl _

theorem mem_insert {now : Nat} {key : κ} {v : ν} {e : CacheEntry κ ν}
    (h : e ∈ (c.insert now key v).entries) :
    e = ⟨key, v, now⟩ ∨ e ∈ c.entries := by
  rcases mem_cons.mp h with rfl | h
  · exact .inl rfl
  · exact .inr (makeRoom_subset now (mem_of_mem_filter h))

end TtlCache

/-!
## A memory budget

Every entry of an `LruCache` has a time to live of its own.  Room for a new one
is made by dropping the entries that were used least recently, first for the
number of entries and then for their size.
-/

structure CachedResult (κ ν : Type) where
  key : κ
  value : ν
  created : Nat
  ttl : Nat
  estimatedBytes : Nat
  deriving DecidableEq, Repr

def CachedResult.isExpired {κ ν : Type} (now : Nat) (e : CachedResult κ ν) :
    Bool :=
  e.ttl < now - e.created

structure LruCache (κ ν : Type) where
  entries : List (CachedResult κ ν) := []
  lru : List κ := []
  maxEntries : Nat
  maxBytes : Nat
  totalBytes : Nat := 0
  hits : Nat := 0
  misses : Nat := 0
  evictions : Nat := 0
  deriving DecidableEq, Repr

namespace LruCache

variable {κ ν : Type}

def withLimits (maxEntries maxBytes : Nat) : LruCache κ ν :=
  { maxEntries := max maxEntries 1, maxBytes := max maxBytes 1 }

variable [DecidableEq κ] (c : LruCache κ ν)

def find (key : κ) : Option (CachedResult κ ν) := c.entries.find? (·.key = key)

def drop (key : κ) (e : CachedResult κ ν) : LruCache κ ν :=
  { c with
    entries := c.entries.filter (·.key ≠ key)
    totalBytes := c.totalBytes - e.estimatedBytes }

def touch (key : κ) : LruCache κ ν :=
  { c with lru := c.lru.filter (· ≠ key) ++ [key] }

def evictOneLru : Bool × LruCache κ ν :=
  match c.lru with
  | [] => (false, c)
  | oldest :: lru =>
    match c.find oldest with
    | none => (false, { c with lru })
    | some e =>
      (true, { c.drop oldest e with lru, evictions := c.evictions + 1 })

/-- Evict while `exceeds` holds; `order` is the order of use, of which every
round takes one. -/
def evictWhile (exceeds : LruCache κ ν → Bool) :
    List κ → LruCache κ ν → LruCache κ ν
  | [], c => c
  | _ :: order, c =>
    if exceeds c then
      let (evicted, c') := c.evictOneLru
      if evicted then evictWhile exceeds order c' else c'
    else c

def evictUntilFits (newBytes : Nat) : LruCache κ ν :=
  let c := evictWhile (fun c => c.maxEntries ≤ c.entries.length) c.lru c
  evictWhile (fun c => c.maxBytes < c.totalBytes + newBytes &&
    !c.entries.isEmpty) c.lru c

def get (now : Nat) (key : κ) : Option ν × LruCache κ ν :=
  match c.find key with
  | none => (none, { c with misses := c.misses + 1 })
  | some e =>
    if e.isExpired now then
      (none, { c.drop key e with
        lru := c.lru.filter (· ≠ key)
        evictions := c.evictions + 1
        misses := c.misses + 1 })
    else (some e.value, { c with hits := c.hits + 1 }.touch key)

def put (now : Nat) (key : κ) (value : ν) (newBytes ttl : Nat) : LruCache κ ν :=
  let c := match c.find key with
    | some old => c.drop key old
    | none => c.evictUntilFits newBytes
  { c with
    totalBytes := c.totalBytes + newBytes
    entries := ⟨key, value, now, ttl, newBytes⟩ :: c.entries }.touch key

def evictExpired (now : Nat) : Nat × LruCache κ ν :=
  let expired := c.entries.filter (·.isExpired now)
  let kept := c.entries.filter fun e => e.key ∉ expired.map (·.key)
  let removed := c.entries.length - kept.length
  (removed, { c with
    entries := kept
    lru := c.lru.filter (· ∉ expired.map (·.key))
    totalBytes := expired.foldl (fun total e =>
      total - e.estimatedBytes) c.totalBytes
    evictions := c.evictions + removed })

def clear : LruCache κ ν := { c with entries := [], lru := [], totalBytes := 0 }

/-! ## Where entries come from -/

variable {c}

variable {key : κ} {e : CachedResult κ ν}

theorem mem_of_find (h : c.find key = some e) : e ∈ c.entries ∧ e.key = key :=
  ⟨mem_of_find?_eq_some h, by simpa using find?_some h⟩

theorem drop_subset (key : κ) (e : CachedResult κ ν) :
    (c.drop key e).entries ⊆ c.entries :=
  filter_subset_self _

private theorem evictOneLru_subset : c.evictOneLru.2.entries ⊆ c.entries := by
  unfold evictOneLru
  split
  · exact List.Subset.refl _
  · split
    · exact List.Subset.refl _
    · exact filter_subset_self _

theorem evictWhile_subset (exceeds : LruCache κ ν → Bool) (order : List κ) :
    (evictWhile exceeds order c).entries ⊆ c.entries := by
  induction order generalizing c with
  | nil => exact List.Subset.refl _
  | cons _ order ih =>
    rw [evictWhile]
    split
    · dsimp only
      split
      · exact List.Subset.trans ih evictOneLru_subset
      · exact evictOneLru_subset
    · exact List.Subset.refl _

theorem evictUntilFits_subset (newBytes : Nat) :
    (c.evictUntilFits newBytes).entries ⊆ c.entries :=
  List.Subset.trans (evictWhile_subset _ _) (evictWhile_subset _ _)

theorem mem_of_get {now : Nat} {v : ν} (h : (c.get now key).1 = some v) :
    ∃ e ∈ c.entries, e.key = key ∧ e.value = v := by
  unfold get at h
  cases hfind : c.find key with
  | none => simp [hfind] at h
  | some e =>
    obtain ⟨hmem, hkey⟩ := mem_of_find hfind
    refine ⟨e, hmem, hkey, ?_⟩
    simp only [hfind] at h
    split at h
    · cases h
    · exact Option.some.inj h

theorem get_subset (now : Nat) (key : κ) :
    (c.get now key).2.entries ⊆ c.entries := by
  unfold get
  split
  · exact List.Subset.refl _
  · split
    · exact filter_subset_self _
    · exact List.Subset.refl _

theorem mem_put {now : Nat} {v : ν} {newBytes ttl : Nat}
    (h : e ∈ (c.put now key v newBytes ttl).entries) :
    e = ⟨key, v, now, ttl, newBytes⟩ ∨ e ∈ c.entries := by
  rcases mem_cons.mp h with rfl | h
  · exact .inl rfl
  cases hfind : c.find key with
  | none =>
    rw [hfind] at h
    exact .inr (evictUntilFits_subset newBytes h)
  | some old =>
    rw [hfind] at h
    exact .inr (drop_subset key old h)

theorem evictExpired_subset (now : Nat) :
    (c.evictExpired now).2.entries ⊆ c.entries :=
  filter_subset_self _

theorem get_put {now later : Nat} {v : ν} {newBytes ttl : Nat}
    (h : later - now ≤ ttl) :
    ((c.put now key v newBytes ttl).get later key).1 = some v := by
  have hfind : (c.put now key v newBytes ttl).find key =
      some ⟨key, v, now, ttl, newBytes⟩ := by
    simp [find, put, touch]
  have hlive : (⟨key, v, now, ttl, newBytes⟩ : CachedResult κ ν).isExpired
      later = false := by
    simp [CachedResult.isExpired, h]
  simp [get, hfind, hlive]

end LruCache

end Fuse.Foundation
