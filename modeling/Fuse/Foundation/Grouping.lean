import Mathlib.Algebra.BigOperators.Group.List.Basic
import Mathlib.Data.List.Dedup

/-!
# Groups and their partial values

The elements of a list that share a key, one representative for each key, and
the values that the parts of a list have for one group.  A value that adds up
over concatenation has as sum over the parts its value on the whole.
-/

namespace Fuse.Foundation.Grouping

open List

variable {α K N : Type} [DecidableEq K] {key : α → K}

def groupOf (key : α → K) (k : K) (xs : List α) : List α :=
  xs.filter (key · = k)

/-- `reps` has one element for each key of `xs`. -/
structure Represents (key : α → K) (reps xs : List α) : Prop where
  distinct : (reps.map key).Nodup
  keys : ∀ k, k ∈ reps.map key ↔ k ∈ xs.map key

variable {k : K} {part : List α} {β γ : Type}

theorem groupOf_of_not_mem {xs : List α} (h : k ∉ xs.map key) :
    groupOf key k xs = [] := by
  refine filter_eq_nil_iff.mpr fun x hx => ?_
  simp only [decide_eq_true_eq]
  intro heq
  exact h (heq ▸ mem_map_of_mem hx)

theorem groupOf_of_nodup {xs : List α} (h : (xs.map key).Nodup) {x : α}
    (hx : x ∈ xs) : groupOf key (key x) xs = [x] := by
  induction xs with
  | nil => cases hx
  | cons y ys ih =>
    rw [map_cons, nodup_cons] at h
    rcases mem_cons.mp hx with rfl | hx
    · have hrest := groupOf_of_not_mem h.1
      rw [groupOf] at hrest ⊢
      rw [filter_cons_of_pos (by simp), hrest]
    have hne : key y ≠ key x := fun heq => h.1 (heq ▸ mem_map_of_mem hx)
    have hrest := ih h.2 hx
    rw [groupOf] at hrest ⊢
    rw [filter_cons_of_neg (by simpa using hne), hrest]

theorem Represents.groupOf_eq {reps xs : List α} (h : Represents key reps xs)
    (hk : k ∈ xs.map key) : ∃ r, key r = k ∧ groupOf key k reps = [r] := by
  obtain ⟨r, hr, rfl⟩ := mem_map.mp ((h.keys k).mpr hk)
  exact ⟨r, rfl, groupOf_of_nodup h.distinct hr⟩

theorem groupOf_flatten (k : K) (parts : List (List α)) :
    groupOf key k parts.flatten = (parts.map (groupOf key k)).flatten := by
  rw [groupOf, filter_flatten]
  rfl

theorem groupOf_flatMap {f : α → List α} (hf : ∀ r, ∀ x ∈ f r, key x = key r)
    (k : K) (rs : List α) : groupOf key k (rs.flatMap f) =
      (groupOf key k rs).flatMap f := by
  induction rs with
  | nil => rfl
  | cons r rs ih =>
    have hcopies : groupOf key k (f r) = if key r = k then f r else [] := by
      split
      · rename_i h
        refine filter_eq_self.mpr fun x hx => ?_
        rw [hf r x hx]
        exact decide_eq_true h
      · rename_i h
        refine filter_eq_nil_iff.mpr fun x hx => ?_
        rw [hf r x hx, decide_eq_true_eq]
        exact h
    rw [flatMap_cons, groupOf, filter_append, ← groupOf,
      ← groupOf, ih, hcopies, groupOf, groupOf, filter_cons]
    by_cases h : key r = k <;> simp [h]

def partials (key : α → K) (value : List α → N) (k : K)
    (parts : List (List α)) : List N :=
  parts.filterMap fun part =>
    if k ∈ part.map key then some (value (groupOf key k part)) else none

variable {value : List α → N} {parts : List (List α)}

theorem partials_cons_of_mem (h : k ∈ part.map key) (parts : List (List α)) :
    partials key value k (part :: parts) =
      value (groupOf key k part) :: partials key value k parts := by
  simp only [partials, filterMap_cons, if_pos h]

theorem partials_cons_of_not_mem (h : k ∉ part.map key)
    (parts : List (List α)) :
    partials key value k (part :: parts) = partials key value k parts := by
  simp only [partials, filterMap_cons, if_neg h]

theorem exists_represents (key : α → K) (xs : List α) :
    ∃ reps, Represents key reps xs := by
  induction xs with
  | nil => exact ⟨[], nodup_nil, fun _ => Iff.rfl⟩
  | cons x xs ih =>
    obtain ⟨reps, hdistinct, hkeys⟩ := ih
    by_cases hx : key x ∈ reps.map key
    · refine ⟨reps, hdistinct, fun k => ?_⟩
      rw [map_cons, mem_cons, ← hkeys]
      refine ⟨.inr, ?_⟩
      rintro (rfl | hk)
      · exact hx
      · exact hk
    · refine ⟨x :: reps, nodup_cons.mpr ⟨hx, hdistinct⟩, fun k => ?_⟩
      simp [hkeys]

def Apart (key : α → K) (parts : List (List α)) : Prop :=
  parts.Pairwise fun p q => ∀ x ∈ p, ∀ y ∈ q, key x ≠ key y

theorem partials_of_not_mem (h : ∀ part ∈ parts, k ∉ part.map key) :
    partials key value k parts = [] := by
  rw [partials, filterMap_eq_nil_iff]
  exact fun part hpart => if_neg (h part hpart)

theorem mem_of_partials_ne_nil (h : partials key value k parts ≠ []) :
    k ∈ parts.flatten.map key := by
  by_contra hk
  refine h (partials_of_not_mem fun part hpart hmem => hk ?_)
  obtain ⟨x, hx, rfl⟩ := mem_map.mp hmem
  exact mem_map_of_mem (mem_flatten_of_mem hpart hx)

theorem partials_of_apart (h : Apart key parts)
    (hk : k ∈ parts.flatten.map key) :
    partials key value k parts = [value (groupOf key k parts.flatten)] := by
  induction parts with
  | nil => cases hk
  | cons part parts ih =>
    obtain ⟨hpart, hparts⟩ := pairwise_cons.mp h
    rw [groupOf_flatten, map_cons, flatten_cons, ← groupOf_flatten]
    by_cases hmem : k ∈ part.map key
    · obtain ⟨x, hx, rfl⟩ := mem_map.mp hmem
      have hnone : ∀ q ∈ parts, key x ∉ q.map key := by
        intro q hq hmem
        obtain ⟨y, hy, heq⟩ := mem_map.mp hmem
        exact hpart q hq x hx y hy heq.symm
      have hrest : key x ∉ parts.flatten.map key := by
        intro hmem
        obtain ⟨y, hy, heq⟩ := mem_map.mp hmem
        obtain ⟨q, hq, hy⟩ := mem_flatten.mp hy
        exact hnone q hq (heq ▸ mem_map_of_mem hy)
      rw [partials_cons_of_mem hmem, partials_of_not_mem hnone,
        groupOf_of_not_mem hrest, append_nil]
    · rw [partials_cons_of_not_mem hmem, groupOf_of_not_mem hmem, nil_append]
      refine ih hparts ?_
      rw [flatten_cons, map_append] at hk
      exact (mem_append.mp hk).resolve_left hmem

theorem groupOf_of_apart (h : Apart key parts) (hpart : part ∈ parts)
    (hk : k ∈ part.map key) :
    groupOf key k parts.flatten = groupOf key k part := by
  have hall : partials key id k parts = [groupOf key k parts.flatten] := by
    obtain ⟨x, hx, rfl⟩ := mem_map.mp hk
    exact partials_of_apart h (mem_map_of_mem (mem_flatten_of_mem hpart hx))
  have hmem : groupOf key k part ∈ partials key id k parts :=
    mem_filterMap.mpr ⟨part, hpart, if_pos hk⟩
  rw [hall] at hmem
  exact (mem_singleton.mp hmem).symm

theorem two_le_length_partials (value : List α → N) (h : ¬ Apart key parts) :
    ∃ k, 2 ≤ (partials key value k parts).length := by
  induction parts with
  | nil => exact absurd .nil h
  | cons part parts ih =>
    by_cases hparts : Apart key parts
    · have hpart : ¬ ∀ q ∈ parts, ∀ x ∈ part, ∀ y ∈ q, key x ≠ key y :=
        fun hpart => h (pairwise_cons.mpr ⟨hpart, hparts⟩)
      push Not at hpart
      obtain ⟨q, hq, x, hx, y, hy, heq⟩ := hpart
      refine ⟨key x, ?_⟩
      rw [partials_cons_of_mem (mem_map_of_mem hx), length_cons,
        partials_of_apart hparts
        (heq ▸ mem_map_of_mem (mem_flatten_of_mem hq hy))]
      exact Nat.le_refl 2
    · obtain ⟨k, hk⟩ := ih hparts
      refine ⟨k, Nat.le_trans hk ?_⟩
      by_cases hmem : k ∈ part.map key
      · rw [partials_cons_of_mem hmem, length_cons]
        exact Nat.le_succ _
      · exact Nat.le_of_eq (by rw [partials_cons_of_not_mem hmem])

section Sums

variable [AddCommMonoid N] {value : List α → N}

theorem sum_partials (hnil : value [] = 0)
    (happend : ∀ xs ys, value (xs ++ ys) = value xs + value ys) (k : K)
    (parts : List (List α)) :
    (partials key value k parts).sum = value (groupOf key k parts.flatten) := by
  induction parts with
  | nil => simpa [partials, groupOf] using hnil.symm
  | cons part parts ih =>
    rw [groupOf_flatten, map_cons, flatten_cons, ← groupOf_flatten,
      happend, ← ih]
    by_cases hk : k ∈ part.map key
    · rw [partials_cons_of_mem hk, sum_cons]
    · rw [partials_cons_of_not_mem hk, groupOf_of_not_mem hk, hnil, zero_add]

end Sums

theorem exists_of_forall₂ {R : β → γ → Prop} {l : List β} {l' : List γ}
    (h : List.Forall₂ R l l') {c : γ} (hc : c ∈ l') : ∃ b ∈ l, R b c := by
  induction h with
  | nil => cases hc
  | @cons b c' l l' hR _ ih =>
    rcases mem_cons.mp hc with rfl | hc
    · exact ⟨b, by simp, hR⟩
    · obtain ⟨b', hb', hR'⟩ := ih hc
      exact ⟨b', by simp [hb'], hR'⟩

theorem flatMap_flatten (f : β → List γ) (l : List (List β)) :
    l.flatten.flatMap f = (l.map fun xs => xs.flatMap f).flatten := by
  simp only [flatMap_def, map_flatten, flatten_flatten, map_map]
  rfl

theorem exists_take_filterMap (f : β → Option γ) (l : List β) (m : Nat) :
    ∃ j, (l.filterMap f).take m = (l.take j).filterMap f := by
  induction l generalizing m with
  | nil => exact ⟨0, by simp⟩
  | cons x l ih =>
    cases hx : f x with
    | none =>
      obtain ⟨j, hj⟩ := ih m
      exact ⟨j + 1, by simp [hx, hj]⟩
    | some y =>
      cases m with
      | zero => exact ⟨0, by simp⟩
      | succ m =>
        obtain ⟨j, hj⟩ := ih m
        exact ⟨j + 1, by simp [hx, hj]⟩

end Fuse.Foundation.Grouping
