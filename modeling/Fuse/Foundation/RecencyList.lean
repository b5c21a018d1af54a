import Fuse.Foundation.Caches
import Fuse.Foundation.Grouping
import Fuse.Foundation.Runs
import Mathlib.Algebra.GroupWithZero.Nat

/-!
# Lists in the order of use

What a cache that evicts by least recent use is for: the list of its entries,
the one used least recently first.  A new entry is put behind the longest end
of the list that leaves room for it.  The cache of `LruCache`, with its map,
its queue of keys and its counter of bytes, keeps books on such a list.
-/

namespace Fuse.Foundation

open List

abbrev Recency (κ ν : Type) := List (CachedResult κ ν)

namespace Recency

variable {κ ν : Type}

def keys (s : Recency κ ν) : List κ := s.map (·.key)

def bytes : Recency κ ν → Nat
  | [] => 0
  | e :: s => e.estimatedBytes + bytes s

/-- The longest end of a list of which `exceeds` is false. -/
def trim (exceeds : Recency κ ν → Bool) : Recency κ ν → Recency κ ν
  | [] => []
  | e :: s => if exceeds (e :: s) then trim exceeds s else e :: s

def tooMany (maxEntries : Nat) (s : Recency κ ν) : Bool := maxEntries ≤ s.length

def tooLarge (maxBytes newBytes : Nat) (s : Recency κ ν) : Bool :=
  maxBytes < bytes s + newBytes && !s.isEmpty

def makeRoom (maxEntries maxBytes newBytes : Nat) (s : Recency κ ν) :
    Recency κ ν :=
  trim (tooLarge maxBytes newBytes) (trim (tooMany maxEntries) s)

section Operations

variable [DecidableEq κ]

def without (key : κ) (s : Recency κ ν) : Recency κ ν := s.filter (·.key ≠ key)

def find (key : κ) (s : Recency κ ν) : Option (CachedResult κ ν) :=
  s.find? (·.key = key)

def get (now : Nat) (key : κ) (s : Recency κ ν) : Option ν × Recency κ ν :=
  match s.find key with
  | none => (none, s)
  | some e =>
    if e.isExpired now then (none, s.without key)
    else (some e.value, s.without key ++ [e])

def put (maxEntries maxBytes : Nat) (e : CachedResult κ ν) (s : Recency κ ν) :
    Recency κ ν :=
  (if e.key ∈ s.keys then s.without e.key
    else s.makeRoom maxEntries maxBytes e.estimatedBytes) ++ [e]

end Operations

def evictExpired (now : Nat) (s : Recency κ ν) : Recency κ ν :=
  s.filter fun e => !e.isExpired now

section Room

variable {exceeds : Recency κ ν → Bool} {s : Recency κ ν}

theorem trim_eq_drop (hnil : exceeds [] = false) (s : Recency κ ν) :
    ∃ n, trim exceeds s = s.drop n ∧ exceeds (s.drop n) = false ∧
      ∀ m < n, exceeds (s.drop m) = true := by
  induction s with
  | nil => exact ⟨0, rfl, hnil, by simp⟩
  | cons e s ih =>
    cases hexceeds : exceeds (e :: s) with
    | true =>
      obtain ⟨n, htrim, hstop, hbefore⟩ := ih
      refine ⟨n + 1, by rw [trim, if_pos hexceeds, htrim]; rfl, hstop, ?_⟩
      intro m hm
      cases m with
      | zero => exact hexceeds
      | succ m => exact hbefore m (by omega)
    | false =>
      exact ⟨0, by rw [trim, if_neg (by simp [hexceeds])]; rfl, hexceeds,
        by simp⟩

def Fits (maxEntries maxBytes newBytes : Nat) (s : Recency κ ν) : Prop :=
  tooMany maxEntries s = false ∧ tooLarge maxBytes newBytes s = false

theorem makeRoom_eq_drop {maxEntries : Nat} (hpos : 0 < maxEntries)
    (maxBytes newBytes : Nat) (s : Recency κ ν) :
    ∃ n, makeRoom maxEntries maxBytes newBytes s = s.drop n ∧
      Fits maxEntries maxBytes newBytes (s.drop n) ∧
      ∀ m < n, ¬ Fits maxEntries maxBytes newBytes (s.drop m) := by
  have hnone : tooMany maxEntries ([] : Recency κ ν) = false := by
    simp [tooMany]
    omega
  obtain ⟨n, hmany, hfew, hmore⟩ := trim_eq_drop hnone s
  obtain ⟨m, hlarge, hsmall, hlarger⟩ :=
    trim_eq_drop (show tooLarge maxBytes newBytes [] =
      false by simp [tooLarge]) (s.drop n)
  refine ⟨n + m, ?_, ⟨?_, ?_⟩, ?_⟩
  · rw [makeRoom, hmany, hlarge, drop_drop]
  · simp only [tooMany, length_drop, decide_eq_false_iff_not] at hfew ⊢
    omega
  · rwa [← drop_drop]
  · intro k hk hfits
    by_cases hkn : k < n
    · exact absurd (hmore k hkn) (by simp [hfits.1])
    · have hk' := hlarger (k - n) (by omega)
      rw [drop_drop, Nat.add_sub_cancel' (by omega), hfits.2] at hk'
      cases hk'

end Room

section Distinct

variable {s : Recency κ ν} {key : κ} {e : CachedResult κ ν}

theorem mem_keys (h : e ∈ s) : e.key ∈ s.keys := mem_map_of_mem h

theorem keys_concat (s : Recency κ ν) (e : CachedResult κ ν) :
    keys (s ++ [e]) = s.keys ++ [e.key] := by simp [keys]

theorem nodup_keys_cons :
    (keys (e :: s)).Nodup ↔ e.key ∉ s.keys ∧ s.keys.Nodup := nodup_cons

theorem eq_of_key_eq (h : s.keys.Nodup) {e' : CachedResult κ ν} (he : e ∈ s)
    (he' : e' ∈ s) (hkey : e.key = e'.key) : e = e' :=
  inj_on_of_nodup_map h he he' hkey

theorem bytes_eq_sum (s : Recency κ ν) :
    bytes s = (s.map (·.estimatedBytes)).sum := by
  induction s with
  | nil => rfl
  | cons e s ih => rw [bytes, ih, map_cons, sum_cons]

theorem bytes_append (s t : Recency κ ν) :
    bytes (s ++ t) = bytes s + bytes t := by
  simp [bytes_eq_sum]

theorem bytes_perm {t : Recency κ ν} (h : s.Perm t) : bytes s = bytes t := by
  rw [bytes_eq_sum, bytes_eq_sum, (h.map _).sum_eq]

theorem foldl_sub_bytes (l : Recency κ ν) (total : Nat) :
    l.foldl (fun total e => total - e.estimatedBytes) total =
      total - bytes l := by
  induction l generalizing total with
  | nil => rfl
  | cons e l ih =>
    rw [foldl_cons, ih, bytes]
    omega

variable [DecidableEq κ]

theorem find_eq_none_iff :
    s.find key = none ↔ key ∉ s.keys := by simp [find, keys]

theorem find_eq_some_iff (h : s.keys.Nodup) :
    s.find key = some e ↔ e ∈ s ∧ e.key = key := by
  constructor
  · intro hfind
    exact ⟨mem_of_find?_eq_some hfind, by simpa using find?_some hfind⟩
  · rintro ⟨hmem, rfl⟩
    cases hfind : s.find e.key with
    | none => exact absurd (mem_keys hmem) (find_eq_none_iff.mp hfind)
    | some e' =>
      have hmem' := mem_of_find?_eq_some hfind
      have hkey : e'.key = e.key := by simpa using find?_some hfind
      rw [eq_of_key_eq h hmem' hmem hkey]

theorem keys_without : (without key s).keys = s.keys.filter (· ≠ key) := by
  simp [without, keys, filter_map, Function.comp_def]

theorem without_of_not_mem (h : key ∉ s.keys) : without key s = s := by
  rw [without, filter_eq_self]
  intro e he
  have hne : e.key ≠ key := fun heq => h (heq ▸ mem_keys he)
  simpa using hne

theorem without_concat_perm (h : s.keys.Nodup) (hmem : e ∈ s) :
    (without e.key s ++ [e]).Perm s := by
  have hown : s.filter (·.key = e.key) = [e] := Grouping.groupOf_of_nodup h hmem
  simpa [without, hown] using filter_append_perm
    (fun x => decide (x.key ≠ e.key)) s

theorem bytes_without (h : s.keys.Nodup) (hmem : e ∈ s) :
    bytes (without e.key s) + e.estimatedBytes = bytes s := by
  rw [← bytes_perm (without_concat_perm h hmem), bytes_append]
  rfl

theorem filter_keys_drop (h : s.keys.Nodup) (n : Nat) :
    (s.filter fun e => decide (e.key ∈ s.keys.drop n)) = s.drop n := by
  have hkeys : s.keys.drop n = keys (s.drop n) := map_drop.symm
  have hsplit : keys (s.take n) ++ keys (s.drop n) = s.keys := by
    simp only [keys]
    rw [← map_append, take_append_drop]
  have hdisjoint : ∀ e ∈ s.take n, e.key ∉ keys (s.drop n) := by
    rw [← hsplit, nodup_append] at h
    exact fun e he hmem => h.2.2 _ (mem_keys he) _ hmem rfl
  rw [hkeys]
  conv_lhs => rw [← take_append_drop n s]
  rw [filter_append, filter_eq_nil_iff.mpr, filter_eq_self.mpr, nil_append]
  · exact fun e he => decide_eq_true (by simpa using mem_keys he)
  · exact fun e he => by simpa using hdisjoint e he

theorem get_cases (h : s.keys.Nodup) (now : Nat) (key : κ) :
    (key ∉ s.keys ∧ s.get now key = (none, s)) ∨ ∃ e ∈ s, e.key = key ∧
        ((e.isExpired now = true ∧ s.get now key = (none, s.without key)) ∨
          (e.isExpired now = false ∧ s.get now key =
            (some e.value, s.without key ++ [e]))) := by
  unfold get
  cases hfind : s.find key with
  | none => exact .inl ⟨find_eq_none_iff.mp hfind, rfl⟩
  | some e =>
    obtain ⟨hmem, hkey⟩ := (find_eq_some_iff h).mp hfind
    refine .inr ⟨e, hmem, hkey, ?_⟩
    cases hexpired : e.isExpired now with
    | true => exact .inl ⟨rfl, if_pos hexpired⟩
    | false => exact .inr ⟨rfl, if_neg (by simp [hexpired])⟩

end Distinct

end Recency

namespace LruCache

open Recency

variable {κ ν : Type} [DecidableEq κ] {c : LruCache κ ν} {s : Recency κ ν}
  {maxEntries maxBytes : Nat}

/-- A cache that keeps the entries of a list: its queue has their keys in their
order, and its counter their bytes. -/
structure Books (maxEntries maxBytes : Nat) (c : LruCache κ ν)
    (s : Recency κ ν) : Prop where
  entries : c.entries.Perm s
  order : c.lru = s.keys
  distinct : s.keys.Nodup
  total : c.totalBytes = s.bytes
  maxEntries : c.maxEntries = maxEntries
  maxBytes : c.maxBytes = maxBytes

namespace Books

theorem find_eq (h : Books maxEntries maxBytes c s) (key : κ) :
    c.find key = s.find key := by
  have hkeys : (Recency.keys c.entries).Nodup :=
    (h.entries.map _).nodup_iff.mpr h.distinct
  ext e
  have hentries : c.find key = some e ↔ e ∈ c.entries ∧ e.key = key :=
    find_eq_some_iff hkeys
  rw [hentries, find_eq_some_iff h.distinct, h.entries.mem_iff]

variable {e : CachedResult κ ν}

theorem drop (h : Books maxEntries maxBytes c s) (he : e ∈ s) (lru : List κ)
    (hlru : lru = (without e.key s).keys) :
    Books maxEntries maxBytes { c.drop e.key e with lru }
    (without e.key s) where
  entries := h.entries.filter _
  order := hlru
  distinct := by
    rw [keys_without]
    exact h.distinct.filter _
  total := by
    have hbytes := bytes_without h.distinct he
    change c.totalBytes - e.estimatedBytes = _
    rw [h.total]
    omega
  maxEntries := h.maxEntries
  maxBytes := h.maxBytes

theorem filter_lru (h : Books maxEntries maxBytes c s) (key : κ) :
    c.lru.filter (· ≠ key) = (without key s).keys := by
  rw [h.order, keys_without]

theorem evictOneLru (h : Books maxEntries maxBytes c (e :: s)) :
    c.evictOneLru.1 = true ∧ Books maxEntries maxBytes c.evictOneLru.2 s := by
  have horder : c.lru = e.key :: s.keys := h.order
  have hfind : c.find e.key = some e := by
    rw [h.find_eq, find_eq_some_iff h.distinct]
    exact ⟨mem_cons_self, rfl⟩
  obtain ⟨hnot, -⟩ := nodup_keys_cons.mp h.distinct
  have hwithout : without e.key (e :: s) = s := by
    have hhead : without e.key (e :: s) = without e.key s := by simp [without]
    rw [hhead, without_of_not_mem hnot]
  have hdrop := h.drop mem_cons_self s.keys (by rw [hwithout])
  rw [hwithout] at hdrop
  simp only [LruCache.evictOneLru, horder, hfind]
  exact ⟨trivial, { hdrop with }⟩

theorem evictWhile {exceeds : LruCache κ ν → Bool} {P : Recency κ ν → Bool}
    (hexceeds : ∀ c s, Books maxEntries maxBytes c s → exceeds c = P s)
    (h : Books maxEntries maxBytes c s) :
    Books maxEntries maxBytes (evictWhile exceeds c.lru c) (trim P s) := by
  induction s generalizing c with
  | nil =>
    have hlru : c.lru = [] := h.order
    rw [hlru]
    exact h
  | cons e s ih =>
    have hlru : c.lru = e.key :: keys s := h.order
    obtain ⟨hevicted, hbooks⟩ := h.evictOneLru
    rw [hlru, LruCache.evictWhile, trim, hexceeds c _ h]
    split
    · have hrest := ih hbooks
      rw [hbooks.order] at hrest
      simpa [hevicted] using hrest
    · exact h

theorem evictUntilFits (h : Books maxEntries maxBytes c s) (newBytes : Nat) :
    Books maxEntries maxBytes (c.evictUntilFits newBytes)
      (makeRoom maxEntries maxBytes newBytes s) := by
  have hmany : ∀ (c : LruCache κ ν) s, Books maxEntries maxBytes c s →
      decide (c.maxEntries ≤ c.entries.length) = tooMany maxEntries s := by
    intro c s h
    rw [h.maxEntries, h.entries.length_eq, tooMany]
  have hlarge : ∀ (c : LruCache κ ν) s, Books maxEntries maxBytes c s →
      (decide (c.maxBytes < c.totalBytes + newBytes) && !c.entries.isEmpty) =
        tooLarge maxBytes newBytes s := by
    intro c s h
    rw [h.maxBytes, h.total, tooLarge, h.entries.isEmpty_eq]
  exact evictWhile hlarge (evictWhile hmany h)

theorem get (h : Books maxEntries maxBytes c s) (now : Nat) (key : κ) :
    (c.get now key).1 = (s.get now key).1 ∧
      Books maxEntries maxBytes (c.get now key).2 (s.get now key).2 := by
  unfold LruCache.get Recency.get
  rw [h.find_eq]
  cases hfind : s.find key with
  | none => exact ⟨rfl, { h with }⟩
  | some e =>
    obtain ⟨hmem, rfl⟩ := (find_eq_some_iff h.distinct).mp hfind
    dsimp only
    split
    · exact ⟨rfl, { h.drop hmem _ (h.filter_lru e.key) with }⟩
    have hperm := without_concat_perm h.distinct hmem
    refine ⟨rfl, ?_⟩
    exact {
      entries := h.entries.trans hperm.symm
      order := by
        change c.lru.filter (· ≠ e.key) ++ [e.key] = _
        rw [h.filter_lru, keys_concat]
      distinct := (hperm.map _).nodup_iff.mpr h.distinct
      total := h.total.trans (bytes_perm hperm).symm
      maxEntries := h.maxEntries
      maxBytes := h.maxBytes }

private theorem store (hentries : c.entries.Perm s)
    (horder : c.lru.filter (· ≠ e.key) = s.keys) (hdistinct : s.keys.Nodup)
    (hnew : e.key ∉ s.keys) (htotal : c.totalBytes = s.bytes)
    (hmaxEntries : c.maxEntries = maxEntries)
    (hmaxBytes : c.maxBytes = maxBytes) : Books maxEntries maxBytes ({ c with
      totalBytes := c.totalBytes + e.estimatedBytes
      entries := e :: c.entries }.touch e.key) (s ++ [e]) where
  entries := (hentries.cons e).trans (perm_append_singleton e s).symm
  order := by
    change c.lru.filter (· ≠ e.key) ++ [e.key] = _
    rw [horder, keys_concat]
  distinct := by
    rw [keys_concat, ← concat_eq_append]
    exact hdistinct.concat hnew
  total := by
    change c.totalBytes + e.estimatedBytes = _
    rw [bytes_append, htotal]
    rfl
  maxEntries := hmaxEntries
  maxBytes := hmaxBytes

theorem put (hpos : 0 < maxEntries) (h : Books maxEntries maxBytes c s)
    (e : CachedResult κ ν) :
    Books maxEntries maxBytes
    (c.put e.created e.key e.value e.estimatedBytes e.ttl)
      (s.put maxEntries maxBytes e) := by
  unfold LruCache.put Recency.put
  rw [h.find_eq]
  cases hfind : s.find e.key with
  | some old =>
    obtain ⟨hmem, hkey⟩ := (find_eq_some_iff h.distinct).mp hfind
    have hdrop := h.drop hmem _ (h.filter_lru old.key)
    rw [hkey] at hdrop
    rw [if_pos (hkey ▸ mem_keys hmem)]
    refine store hdrop.entries hdrop.order hdrop.distinct ?_ hdrop.total
      h.maxEntries h.maxBytes
    rw [keys_without]
    simp
  | none =>
    have hnew := find_eq_none_iff.mp hfind
    have hroom := h.evictUntilFits e.estimatedBytes
    obtain ⟨n, hdrop, -⟩ := makeRoom_eq_drop hpos maxBytes e.estimatedBytes s
    have hnew' :
        e.key ∉ (makeRoom maxEntries maxBytes e.estimatedBytes s).keys := by
      rw [hdrop, Recency.keys, map_drop]
      exact fun hmem => hnew (mem_of_mem_drop hmem)
    rw [if_neg hnew]
    refine store hroom.entries ?_ hroom.distinct hnew' hroom.total
      hroom.maxEntries hroom.maxBytes
    rw [hroom.filter_lru, without_of_not_mem hnew']

theorem evictExpired (h : Books maxEntries maxBytes c s) (now : Nat) :
    Books maxEntries maxBytes (c.evictExpired now).2 (s.evictExpired now) := by
  -- a key of an expired entry is the key of no other entry
  have hkey : ∀ e ∈ s,
    (e.key ∉ (c.entries.filter (·.isExpired now)).map (·.key)) ↔
      e.isExpired now = false := by
    intro e he
    constructor
    · intro hnot
      by_contra hexpired
      refine hnot (mem_map_of_mem
        (mem_filter.mpr ⟨?_, by simpa using hexpired⟩))
      exact h.entries.mem_iff.mpr he
    · intro hlive hmem
      obtain ⟨e', he', heq⟩ := mem_map.mp hmem
      obtain ⟨hmem', hexpired⟩ := mem_filter.mp he'
      rw [eq_of_key_eq h.distinct (h.entries.mem_iff.mp hmem') he heq, hlive]
        at hexpired
      cases hexpired
  have hkept : (c.entries.filter fun e =>
      e.key ∉ (c.entries.filter (·.isExpired now)).map (·.key)) =
        c.entries.filter fun e => !e.isExpired now := by
    refine filter_congr fun e he => ?_
    rw [Bool.eq_iff_iff]
    simpa using hkey e (h.entries.mem_iff.mp he)
  refine {
    entries := ?_
    order := ?_
    distinct := h.distinct.sublist (filter_sublist.map _)
    total := ?_
    maxEntries := h.maxEntries
    maxBytes := h.maxBytes }
  · change (c.entries.filter fun e => _).Perm _
    rw [hkept]
    exact h.entries.filter _
  · change (c.lru.filter fun key => decide (key ∉ _)) = _
    rw [h.order, Recency.keys, filter_map]
    refine congrArg _ (filter_congr fun e he => ?_)
    rw [Bool.eq_iff_iff]
    simpa using hkey e he
  · have hsplit := bytes_perm (filter_append_perm
      (fun e => e.isExpired now) c.entries)
    rw [bytes_append, bytes_perm (h.entries.filter fun e => !e.isExpired now),
      bytes_perm h.entries] at hsplit
    change List.foldl _ c.totalBytes _ = bytes (s.filter _)
    rw [foldl_sub_bytes, h.total]
    omega

omit [DecidableEq κ] in
theorem clear (h : Books maxEntries maxBytes c s) :
    Books maxEntries maxBytes c.clear [] where
  entries := .refl _
  order := rfl
  distinct := nodup_nil
  total := rfl
  maxEntries := h.maxEntries
  maxBytes := h.maxBytes

omit [DecidableEq κ] in
theorem withLimits : Books (max maxEntries 1) (max maxBytes 1)
    (withLimits maxEntries maxBytes : LruCache κ ν) [] :=
  ⟨.refl _, rfl, nodup_nil, rfl, rfl, rfl⟩

end Books

end LruCache

end Fuse.Foundation
