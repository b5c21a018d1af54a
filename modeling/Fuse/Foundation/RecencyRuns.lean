import Fuse.Foundation.RecencyList
import Mathlib.Data.List.Induction

/-!
# Runs of a cache

What the list in the order of use says about the calls that led to it: its
keys are in the order of their last use, and an entry is in it when it was the
last one stored under its key and has since neither expired nor been evicted or
cleared.
-/

namespace Fuse.Foundation

open List

inductive LruUse (κ ν : Type) where
  | get (key : κ)
  | put (key : κ) (value : ν) (newBytes ttl : Nat)
  | evictExpired
  | clear

structure LruCall (κ ν : Type) where
  now : Nat
  use : LruUse κ ν

section Calls

variable {κ ν : Type} [DecidableEq κ]

def LruCache.after (call : LruCall κ ν) (c : LruCache κ ν) : LruCache κ ν :=
  match call.use with
  | .get key => (c.get call.now key).2
  | .put key value newBytes ttl => c.put call.now key value newBytes ttl
  | .evictExpired => (c.evictExpired call.now).2
  | .clear => c.clear

def LruCache.used (call : LruCall κ ν) (c : LruCache κ ν) : Option κ :=
  match call.use with
  | .get key => if (c.get call.now key).1.isSome then some key else none
  | .put key _ _ _ => some key
  | _ => none

def LruCache.uses (c : LruCache κ ν) : List (LruCall κ ν) → List κ
  | [] => []
  | call :: calls => (c.used call).toList ++ uses (c.after call) calls

def LruCache.Spares (key : κ) (c : LruCache κ ν) (call : LruCall κ ν) : Prop :=
  match call.use with
  | .put key' _ _ _ => key' ≠ key ∧ (key ∈ c.lru → key ∈ (c.after call).lru)
  | .clear => False
  | _ => True

namespace Recency

variable (maxEntries maxBytes : Nat)

def after (call : LruCall κ ν) (s : Recency κ ν) : Recency κ ν :=
  match call.use with
  | .get key => (s.get call.now key).2
  | .put key value newBytes ttl =>
    s.put maxEntries maxBytes ⟨key, value, call.now, ttl, newBytes⟩
  | .evictExpired => s.evictExpired call.now
  | .clear => []

def used (call : LruCall κ ν) (s : Recency κ ν) : Option κ :=
  match call.use with
  | .get key => if (s.get call.now key).1.isSome then some key else none
  | .put key _ _ _ => some key
  | _ => none

def uses (s : Recency κ ν) : List (LruCall κ ν) → List κ
  | [] => []
  | call :: calls =>
    (s.used call).toList ++ uses (s.after maxEntries maxBytes call) calls

def Spares (key : κ) (s : Recency κ ν) (call : LruCall κ ν) : Prop :=
  match call.use with
  | .put key' _ _ _ =>
    key' ≠ key ∧ (key ∈ s.keys → key ∈ (s.after maxEntries maxBytes call).keys)
  | .clear => False
  | _ => True

end Recency

namespace LruCache.Books

open Recency

variable {c : LruCache κ ν} {s : Recency κ ν} {maxEntries maxBytes : Nat}
  {call : LruCall κ ν} {calls : List (LruCall κ ν)}

theorem used_eq (h : Books maxEntries maxBytes c s) (call : LruCall κ ν) :
    c.used call = s.used call := by
  unfold LruCache.used Recency.used
  cases call.use with
  | get key => simp [(h.get call.now key).1]
  | _ => rfl

variable (hpos : 0 < maxEntries) (h : Books maxEntries maxBytes c s)

include hpos h

theorem after (call : LruCall κ ν) :
    Books maxEntries maxBytes (c.after call)
    (s.after maxEntries maxBytes call) := by
  unfold LruCache.after Recency.after
  cases call.use with
  | get key => exact (h.get call.now key).2
  | put key value newBytes ttl =>
    exact h.put hpos ⟨key, value, call.now, ttl, newBytes⟩
  | evictExpired => exact h.evictExpired call.now
  | clear => exact h.clear

theorem run (calls : List (LruCall κ ν)) :
    Books maxEntries maxBytes (runSteps LruCache.after c calls)
      (runSteps (Recency.after maxEntries maxBytes) s calls) := by
  induction calls generalizing c s with
  | nil => exact h
  | cons call calls ih => exact ih (h.after hpos call)

theorem uses_eq (calls : List (LruCall κ ν)) :
    c.uses calls = s.uses maxEntries maxBytes calls := by
  induction calls generalizing c s with
  | nil => rfl
  | cons call calls ih =>
    rw [LruCache.uses, Recency.uses, h.used_eq, ih (h.after hpos call)]

theorem spares_iff (key : κ) (call : LruCall κ ν) :
    LruCache.Spares key c call ↔
    Recency.Spares maxEntries maxBytes key s call := by
  unfold LruCache.Spares Recency.Spares
  rw [h.order, (h.after hpos call).order]

theorem everyStep_spares_iff (key : κ) (calls : List (LruCall κ ν)) :
    EveryStep LruCache.after (LruCache.Spares key) c calls ↔
      EveryStep (Recency.after maxEntries maxBytes)
        (Recency.Spares maxEntries maxBytes key) s calls := by
  induction calls generalizing c s with
  | nil => exact Iff.rfl
  | cons call calls ih =>
    exact and_congr (h.spares_iff hpos key call) (ih (h.after hpos call))

end LruCache.Books

theorem dedup_concat (l : List κ) (key : κ) :
    (l ++ [key]).dedup = l.dedup.filter (· ≠ key) ++ [key] := by
  induction l with
  | nil => simp
  | cons a l ih =>
    rw [cons_append]
    by_cases hmem : a ∈ l
    · rw [dedup_cons_of_mem (by simp [hmem]), ih, dedup_cons_of_mem hmem]
    rw [dedup_cons_of_notMem hmem]
    by_cases hkey : a = key
    · rw [dedup_cons_of_mem (by simp [hkey]), ih]
      simp [hkey]
    · rw [dedup_cons_of_notMem (by simp [hmem, hkey]), ih]
      simp [hkey]

namespace Recency

variable {maxEntries maxBytes : Nat} {s : Recency κ ν} {call : LruCall κ ν}
  {calls : List (LruCall κ ν)}

theorem uses_concat (s : Recency κ ν) (calls : List (LruCall κ ν))
    (call : LruCall κ ν) :
    s.uses maxEntries maxBytes (calls ++ [call]) =
      s.uses maxEntries maxBytes calls ++
        ((runSteps (after maxEntries maxBytes) s calls).used call).toList := by
  induction calls generalizing s with
  | nil => simp [uses, runSteps]
  | cons first calls ih =>
    rw [cons_append, uses, uses, ih, append_assoc]
    rfl

variable (hpos : 0 < maxEntries)

include hpos

/-- After a call the keys are those before it without the key it used, and this
key behind them; some may be missing. -/
theorem keys_after (hdistinct : s.keys.Nodup) (call : LruCall κ ν) :
    (s.after maxEntries maxBytes call).keys.Sublist
      ((s.used call).elim s.keys fun key =>
          s.keys.filter (· ≠ key) ++ [key]) := by
  unfold after used
  cases call.use with
  | get key =>
    rcases get_cases hdistinct call.now key with
      ⟨-, hget⟩ | ⟨e, -, rfl, ⟨-, hget⟩ | ⟨-, hget⟩⟩
    · simp [hget]
    · simp [hget, keys_without]
    · simp [hget, keys_concat, keys_without]
  | put key value newBytes ttl =>
    simp only [put, keys_concat, Option.elim_some]
    refine List.Sublist.append_right ?_ _
    split
    · rw [keys_without]
    rename_i hnew
    obtain ⟨n, hdrop, -⟩ := makeRoom_eq_drop hpos maxBytes newBytes s
    have hfilter : s.keys.filter (· ≠ key) = s.keys := by
      rw [← keys_without, without_of_not_mem hnew]
    rw [hdrop, hfilter]
    exact (drop_sublist n s).map _
  | evictExpired => exact filter_sublist.map _
  | clear => exact nil_sublist _

theorem distinct_after (hdistinct : s.keys.Nodup)
    (call : LruCall κ ν) : (s.after maxEntries maxBytes call).keys.Nodup := by
  refine List.Nodup.sublist (keys_after hpos hdistinct call) ?_
  cases s.used call with
  | none => exact hdistinct
  | some key =>
    rw [Option.elim_some, nodup_append]
    exact ⟨hdistinct.filter _, by simp, by simp⟩

theorem distinct_run (calls : List (LruCall κ ν)) :
    (runSteps (after maxEntries maxBytes)
      ([] : Recency κ ν) calls).keys.Nodup :=
  runSteps_inv (I := fun s : Recency κ ν => s.keys.Nodup)
    (fun call _ _ h => distinct_after hpos h call) nodup_nil

theorem length_after (hdistinct : s.keys.Nodup)
    (hlength : s.length ≤ maxEntries)
    (call : LruCall κ ν) : (s.after maxEntries maxBytes call).length ≤
    maxEntries := by
  unfold after
  cases call.use with
  | get key =>
    change (s.get call.now key).2.length ≤ _
    rcases get_cases hdistinct call.now key with
      ⟨-, hget⟩ | ⟨e, he, rfl, ⟨-, hget⟩ | ⟨-, hget⟩⟩
    · rwa [hget]
    · rw [hget]
      exact Nat.le_trans (length_filter_le _ _) hlength
    · rw [hget]
      exact (without_concat_perm hdistinct he).length_eq ▸ hlength
  | put key value newBytes ttl =>
    simp only [put, length_append, length_singleton]
    split
    · rename_i hold
      obtain ⟨e, he, hkey⟩ := mem_map.mp hold
      have hperm := (without_concat_perm hdistinct he).length_eq
      rw [length_append, hkey] at hperm
      exact hperm ▸ hlength
    · obtain ⟨n, hdrop, ⟨hfew, -⟩, -⟩ :=
        makeRoom_eq_drop hpos maxBytes newBytes s
      rw [tooMany, decide_eq_false_iff_not] at hfew
      rw [hdrop]
      omega
  | evictExpired => exact Nat.le_trans (length_filter_le _ _) hlength
  | clear => exact Nat.zero_le _

theorem length_run (calls : List (LruCall κ ν)) :
    (runSteps (after maxEntries maxBytes) ([] : Recency κ ν) calls).length ≤
    maxEntries := by
  have hstart : keys ([] : Recency κ ν) |>.Nodup := nodup_nil
  exact (runSteps_inv (I := fun s : Recency κ ν =>
      s.keys.Nodup ∧ s.length ≤ maxEntries)
    (fun call _ _ h => ⟨distinct_after hpos h.1 call,
      length_after hpos h.1 h.2 call⟩) ⟨hstart, Nat.zero_le _⟩).2

theorem keys_run_sublist (calls : List (LruCall κ ν)) :
    (runSteps (after maxEntries maxBytes) ([] : Recency κ ν) calls).keys.Sublist
      (uses maxEntries maxBytes ([] : Recency κ ν) calls).dedup := by
  induction calls using List.reverseRecOn with
  | nil => exact nil_sublist _
  | append_singleton calls call ih =>
    rw [runSteps_append, uses_concat]
    refine (keys_after hpos (distinct_run hpos calls) call).trans ?_
    cases used call _ with
    | none => simpa using ih
    | some key =>
      rw [Option.toList_some, dedup_concat]
      exact (ih.filter _).append_right _

def putCall (e : CachedResult κ ν) : LruCall κ ν :=
  ⟨e.created, .put e.key e.value e.estimatedBytes e.ttl⟩

variable {e : CachedResult κ ν} {now : Nat}

theorem mem_after (hdistinct : s.keys.Nodup)
    (h : e ∈ s.after maxEntries maxBytes call) :
    call = putCall e ∨ (e ∈ s ∧ Spares maxEntries maxBytes e.key s call) := by
  obtain ⟨now, use⟩ := call
  have hkey := mem_keys h
  cases use with
  | get key =>
    refine .inr ⟨?_, trivial⟩
    have hmem : e ∈ (s.get now key).2 := h
    rcases get_cases hdistinct now key with
      ⟨-, hget⟩ | ⟨e', he', rfl, ⟨-, hget⟩ | ⟨-, hget⟩⟩
    · rwa [hget] at hmem
    · rw [hget] at hmem
      exact mem_of_mem_filter hmem
    · rw [hget] at hmem
      exact (without_concat_perm hdistinct he').mem_iff.mp hmem
  | put key value newBytes ttl =>
    rcases mem_append.mp h with hmem | hmem
    · right
      have hold : e ∈ s ∧ key ≠ e.key := by
        split at hmem
        · obtain ⟨hs, hne⟩ := mem_filter.mp hmem
          exact ⟨hs, fun heq => by simp [heq] at hne⟩
        rename_i hnew
        obtain ⟨n, hdrop, -⟩ := makeRoom_eq_drop hpos maxBytes newBytes s
        have hs : e ∈ s := mem_of_mem_drop (hdrop ▸ hmem)
        have hin : e.key ∈ s.keys := mem_keys hs
        exact ⟨hs, fun heq => hnew (show key ∈ s.keys from heq ▸ hin)⟩
      exact ⟨hold.1, hold.2, fun _ => hkey⟩
    · left
      rw [mem_singleton.mp hmem]
      rfl
  | evictExpired => exact .inr ⟨mem_of_mem_filter h, trivial⟩
  | clear => cases h

theorem mem_after_of_spares (hdistinct : s.keys.Nodup)
    (he : e ∈ s) (hspares : Spares maxEntries maxBytes e.key s call) :
    e ∈ s.after maxEntries maxBytes call ∨ e.isExpired call.now = true := by
  obtain ⟨now, use⟩ := call
  cases use with
  | get key =>
    rcases get_cases hdistinct now key with
      ⟨-, hget⟩ | ⟨e', he', rfl, ⟨hexpired, hget⟩ | ⟨-, hget⟩⟩
    · left
      simpa [after, hget] using he
    · by_cases hkey : e.key = e'.key
      · right
        rwa [eq_of_key_eq hdistinct he he' hkey]
      · left
        simp [after, hget, without, he, hkey]
    · left
      simpa [after, hget]
        using (without_concat_perm hdistinct he').mem_iff.mpr he
  | put key value newBytes ttl =>
    left
    obtain ⟨hne, hkept⟩ := hspares
    obtain ⟨e', he', hkey⟩ := mem_map.mp (hkept (mem_keys he))
    rcases mem_after hpos hdistinct he' with hput | ⟨hmem, -⟩
    · cases hput
      exact absurd hkey hne
    · rwa [← eq_of_key_eq hdistinct hmem he hkey]
  | evictExpired =>
    cases hexpired : e.isExpired now with
    | true => exact .inr rfl
    | false => exact .inl (mem_filter.mpr ⟨he, by simp [hexpired]⟩)
  | clear => exact hspares.elim

variable (maxEntries maxBytes) in
def Stored (calls : List (LruCall κ ν)) (e : CachedResult κ ν) : Prop :=
  ∃ before rest, calls = before ++ putCall e :: rest ∧
    EveryStep (after maxEntries maxBytes) (Spares maxEntries maxBytes e.key)
      (runSteps (after maxEntries maxBytes) [] (before ++ [putCall e])) rest

theorem stored_of_mem (h : e ∈ runSteps (after maxEntries maxBytes) [] calls) :
    Stored maxEntries maxBytes calls e := by
  induction calls using List.reverseRecOn with
  | nil => cases h
  | append_singleton calls call ih =>
    rw [runSteps_append] at h
    rcases mem_after hpos (distinct_run hpos calls) h with rfl | ⟨hmem, hspares⟩
    · exact ⟨calls, [], rfl, trivial⟩
    obtain ⟨before, rest, rfl, hrest⟩ := ih hmem
    refine ⟨before, rest ++ [call], by simp, everyStep_concat.mpr ⟨hrest, ?_⟩⟩
    rw [← runSteps_append]
    simpa using hspares

private theorem mem_run_of_spares (hlive : e.isExpired now = false)
    (htimes : ∀ call ∈ calls, call.now ≤ now) (hdistinct : s.keys.Nodup)
    (he : e ∈ s) (hspares : EveryStep (after maxEntries maxBytes)
      (Spares maxEntries maxBytes e.key) s calls) :
    e ∈ runSteps (after maxEntries maxBytes) s calls := by
  induction calls generalizing s with
  | nil => exact he
  | cons call calls ih =>
    obtain ⟨hfirst, hrest⟩ := hspares
    obtain ⟨hnow, htimes⟩ := forall_mem_cons.mp htimes
    refine ih htimes (distinct_after hpos hdistinct call) ?_ hrest
    rcases mem_after_of_spares hpos hdistinct he hfirst with hmem | hexpired
    · exact hmem
    -- an entry that has expired stays expired
    simp only [CachedResult.isExpired, decide_eq_true_eq,
      decide_eq_false_iff_not] at hexpired hlive
    omega

theorem mem_run_of_stored (hlive : e.isExpired now = false)
    (htimes : ∀ call ∈ calls, call.now ≤ now)
    (h : Stored maxEntries maxBytes calls e) :
    e ∈ runSteps (after maxEntries maxBytes) [] calls := by
  obtain ⟨before, rest, rfl, hspares⟩ := h
  have hput : e ∈ runSteps (after maxEntries maxBytes) []
      (before ++ [putCall e]) := by
    rw [runSteps_append]
    exact mem_append_right _ mem_cons_self
  have hsplit : before ++ putCall e :: rest = (before ++ [putCall e]) ++
    rest := by simp
  rw [hsplit] at htimes ⊢
  rw [runSteps_append]
  exact mem_run_of_spares hpos hlive (fun call hcall =>
    htimes call (mem_append_right _ hcall))
    (distinct_run hpos _) hput hspares

/-- A read finds the entry that was last stored under its key, if it has not
expired and was not evicted or cleared. -/
theorem get_run_iff (htimes : ∀ call ∈ calls, call.now ≤ now) {key : κ}
    {v : ν} :
    ((runSteps (after maxEntries maxBytes) [] calls).get now key).1 = some v ↔
      ∃ e, Stored maxEntries maxBytes calls e ∧ e.key = key ∧ e.value = v ∧
        e.isExpired now = false := by
  have hdistinct : (runSteps (after maxEntries maxBytes) [] calls).keys.Nodup :=
    distinct_run hpos calls
  constructor
  · intro hget
    rcases get_cases hdistinct now key with
      ⟨-, heq⟩ | ⟨e, he, hkey, ⟨-, heq⟩ | ⟨hlive, heq⟩⟩
    · simp [heq] at hget
    · simp [heq] at hget
    · simp only [heq, Option.some.injEq] at hget
      exact ⟨e, stored_of_mem hpos he, hkey, hget, hlive⟩
  · rintro ⟨e, hstored, rfl, rfl, hlive⟩
    have hmem := mem_run_of_stored hpos hlive htimes hstored
    simp [get, (find_eq_some_iff hdistinct).mpr ⟨hmem, rfl⟩, hlive]

def Within (maxBytes : Nat) (s : Recency κ ν) : Prop :=
  s.bytes ≤ maxBytes ∨ s.length = 1

def OverwriteFits (maxBytes : Nat) (s : Recency κ ν) (call : LruCall κ ν) :
    Prop :=
  match call.use with
  | .put key _ newBytes _ => key ∈ s.keys →
      bytes (s.without key) + newBytes ≤ maxBytes ∨ s.without key = []
  | _ => True

omit [DecidableEq κ] in
omit hpos in
theorem Within.filter (h : Within maxBytes s) (p : CachedResult κ ν → Bool) :
    Within maxBytes (s.filter p) := by
  have hbytes : ∀ s : Recency κ ν, bytes (s.filter p) ≤ bytes s := by
    intro s
    induction s with
    | nil => exact Nat.le_refl 0
    | cons e s ih =>
      rw [filter_cons]
      split <;> simp only [bytes] <;> omega
  rcases h with h | h
  · exact .inl (Nat.le_trans (hbytes s) h)
  have hlength := length_filter_le p s
  rcases hfilter : s.filter p with _ | ⟨e, _ | _⟩
  · exact .inl (Nat.zero_le _)
  · exact .inr rfl
  · simp only [hfilter, length_cons] at hlength
    omega

omit [DecidableEq κ] in
omit hpos in
private theorem within_concat (s : Recency κ ν) (e : CachedResult κ ν) :
    Within maxBytes (s ++ [e]) ↔ bytes s + e.estimatedBytes ≤ maxBytes ∨
    s = [] := by
  rw [Within, bytes_append, length_append, length_singleton]
  exact or_congr Iff.rfl (by rw [← length_eq_zero_iff]; omega)

theorem within_after_iff (hdistinct : s.keys.Nodup) (h : Within maxBytes s) :
    Within maxBytes (s.after maxEntries maxBytes call) ↔
    OverwriteFits maxBytes s call := by
  obtain ⟨now, use⟩ := call
  cases use with
  | get key =>
    refine iff_of_true ?_ trivial
    dsimp only [after]
    rcases get_cases hdistinct now key with
      ⟨-, hget⟩ | ⟨e, he, rfl, ⟨-, hget⟩ | ⟨-, hget⟩⟩
    · rwa [hget]
    · rw [hget]
      exact h.filter _
    · rw [hget]
      have hperm := without_concat_perm hdistinct he
      rwa [Within, bytes_perm hperm, hperm.length_eq]
  | put key value newBytes ttl =>
    simp only [after, OverwriteFits, put]
    split
    · next hold => rw [within_concat, forall_prop_of_true hold]
    rename_i hnew
    refine iff_of_true ((within_concat _ _).mpr ?_) (absurd · hnew)
    obtain ⟨n, hroom, ⟨-, hfits⟩, -⟩ :=
      makeRoom_eq_drop hpos maxBytes newBytes s
    rw [hroom]
    simpa [tooLarge, Decidable.or_iff_not_imp_left] using hfits
  | evictExpired => exact iff_of_true (h.filter _) trivial
  | clear => exact iff_of_true (.inl (Nat.zero_le _)) trivial

end Recency

end Calls

end Fuse.Foundation
