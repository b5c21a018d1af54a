import Fuse.Foundation.Windows

/-!
# Pages whose next start adds the base again

Pages of a fixed size are read off a list.  The first starts at `base`, and
after a page that starts at `s` comes one at `base + s + size`, as long as
something is left behind the page.  The pages are the elements from `base` on
exactly when `base` is zero or one page is enough.
-/

namespace Fuse.Foundation.Paging

open Windows List

variable {α : Type}

/-- The elements of the pages from `s` on; one page for each unit of fuel. -/
def visited (base size : Nat) (xs : List α) : Nat → Nat → List α
  | 0, _ => []
  | fuel + 1, s => window s size xs ++ if s + size < xs.length then
        visited base size xs fuel (base + s + size)
      else []

/-- When the pages are the elements from `base` on, up to the limit. -/
def Covers (limit : Option Nat) (base size length : Nat) : Prop :=
  ((base = 0 ∨ length ≤ base + size) ∧ ∀ l, limit = some l →
    length ≤ base + l) ∨ (limit = some size ∧ length ≤ 2 * base + size)

theorem window_append_drop (s size : Nat) (xs : List α) :
    window s size xs ++ xs.drop (s + size) = xs.drop s := by
  rw [window, ← drop_drop, take_append_drop]

variable {xs : List α} {fuel s : Nat} {base size : Nat}

theorem window_eq_drop {s size : Nat} (h : xs.length ≤ s + size) :
    window s size xs = xs.drop s := by
  rw [window, take_of_length_le]
  rw [length_drop]
  omega

theorem visited_zero {size : Nat} (hsize : 0 < size) (xs : List α)
    (hfuel : xs.length < s + fuel) : visited 0 size xs fuel s = xs.drop s := by
  induction fuel generalizing s with
  | zero => rw [visited, drop_of_length_le (by omega)]
  | succ fuel ih =>
    rw [visited]
    split
    · rw [ih (by omega), Nat.zero_add, window_append_drop]
    · rw [append_nil, window_eq_drop (by omega)]

theorem visited_subset (base size : Nat) (xs : List α) (fuel s : Nat) :
    visited base size xs fuel s ⊆ xs.drop s := by
  induction fuel generalizing s with
  | zero => exact nil_subset _
  | succ fuel ih =>
    rw [visited, ← window_append_drop s size xs]
    refine append_subset.mpr ⟨subset_append_left _ _, ?_⟩
    split
    · have hstart : base + s + size = (s + size) + base := by omega
      refine List.Subset.trans (ih _) ?_
      rw [hstart, ← drop_drop]
      exact List.Subset.trans (drop_subset _ _) (subset_append_right _ _)
    · exact nil_subset _

theorem visited_ne_nil (hsize : 0 < size) (h : s < xs.length) :
    visited base size xs (fuel + 1) s ≠ [] := by
  rw [visited, ne_eq, append_eq_nil_iff]
  rintro ⟨hwindow, -⟩
  have hlength := congrArg List.length hwindow
  rw [window, length_take, length_drop, length_nil] at hlength
  omega

theorem visited_ne_cons (hbase : 0 < base) (hnodup : xs.Nodup)
    (hs : s < xs.length) (ys : List α) :
    visited base size xs fuel (base + s) ≠ xs[s] :: ys := by
  intro h
  have hmem : xs[s] ∈ xs.drop (base + s) :=
    visited_subset base size xs fuel (base + s) (h ▸ mem_cons_self)
  obtain ⟨i, hi, heq⟩ := getElem_of_mem hmem
  rw [getElem_drop] at heq
  rw [length_drop] at hi
  have hsame := (List.Nodup.getElem_inj_iff hnodup).mp heq
  omega

theorem limited_eq_self_iff (limit : Option Nat) (xs : List α) :
    xs = limited limit xs ↔ ∀ l, limit = some l → xs.length ≤ l := by
  cases limit with
  | none => simp [limited]
  | some l =>
    rw [eq_comm]
    simp only [limited, Option.some.injEq, forall_eq']
    refine ⟨fun h => ?_, take_of_length_le⟩
    rw [← h]
    exact length_take_le l xs

private theorem append_visited_eq_iff (hbase : 0 < base) (hsize : 0 < size)
    (hnodup : xs.Nodup) (hmore : base + size < xs.length) (fuel : Nat)
    (limit : Option Nat) : window base size xs ++
        visited base size xs (fuel + 1) (base + (base + size)) =
          limited limit (xs.drop base) ↔
        limit = some size ∧ xs.length ≤ 2 * base + size := by
  have hfirst : (window base size xs).length = size := by
    rw [window, length_take, length_drop]
    omega
  have hnext := drop_eq_getElem_cons hmore
  cases limit with
  | none =>
    rw [limited, ← window_append_drop base size xs, hnext]
    simp only [reduceCtorEq, false_and, iff_false]
    intro h
    exact visited_ne_cons hbase hnodup hmore _ (append_cancel_left h)
  | some l =>
    rw [limited, ← window_append_drop base size xs, take_append, hfirst]
    constructor
    · intro h
      have hle : size ≤ l := by
        have hlength := congrArg List.length h
        simp only [length_append, length_take, hfirst, length_drop] at hlength
        omega
      rw [take_of_length_le (by omega)] at h
      have hrest := append_cancel_left h
      rcases Nat.eq_or_lt_of_le hle with rfl | hlt
      · refine ⟨rfl, ?_⟩
        by_contra hlate
        refine visited_ne_nil hsize ?_ (hrest.trans (by simp))
        omega
      · rw [hnext, show l - size = (l - size - 1) + 1 by omega, take_succ_cons]
          at hrest
        exact absurd hrest (visited_ne_cons hbase hnodup hmore _)
    · rintro ⟨hl, hlate⟩
      cases hl
      have hnil : visited base size xs (fuel + 1) (base + (base + size)) =
          [] := by
        apply eq_nil_of_subset_nil
        have hdrop := visited_subset base size xs (fuel + 1)
          (base + (base + size))
        rwa [drop_of_length_le (by omega)] at hdrop
      rw [hnil, Nat.sub_self, take_zero, take_of_length_le (by omega)]

theorem visited_eq_iff (hsize : 0 < size) (hnodup : xs.Nodup) {fuel : Nat}
    (hfuel : xs.length < fuel) (limit : Option Nat) :
    visited base size xs fuel base = limited limit (xs.drop base) ↔
      Covers limit base size xs.length := by
  unfold Covers
  by_cases hone : xs.length ≤ base + size
  · -- one page shows all there is
    obtain ⟨fuel, rfl⟩ : ∃ f, fuel = f + 1 := ⟨fuel - 1, by omega⟩
    rw [visited, if_neg (by omega), append_nil, window_eq_drop hone,
      limited_eq_self_iff, length_drop]
    constructor
    · intro h
      exact .inl ⟨.inr hone, fun l hl => by have := h l hl; omega⟩
    · rintro (⟨-, h⟩ | ⟨hlimit, -⟩) l hl
      · have := h l hl
        omega
      · rw [hlimit] at hl
        cases hl
        omega
  · rcases Nat.eq_zero_or_pos base with rfl | hbase
    · rw [visited_zero hsize xs (by omega), limited_eq_self_iff, length_drop]
      constructor
      · intro h
        exact .inl ⟨.inl rfl, fun l hl => by have := h l hl; omega⟩
      · rintro (⟨-, h⟩ | ⟨-, hsmall⟩) l hl
        · have := h l hl
          omega
        · omega
    · obtain ⟨fuel, rfl⟩ : ∃ f, fuel = f + 2 := ⟨fuel - 2, by omega⟩
      rw [visited, if_pos (by omega), Nat.add_assoc,
        append_visited_eq_iff hbase hsize hnodup (by omega)]
      constructor
      · exact Or.inr
      · rintro (⟨hcase, -⟩ | h)
        · omega
        · exact h

/-! ## Only positions matter -/

variable {β : Type}

theorem visited_map (f : α → β) (base size : Nat) (xs : List α) (fuel s : Nat) :
    visited base size (xs.map f) fuel s =
      (visited base size xs fuel s).map f := by
  induction fuel generalizing s with
  | zero => rfl
  | succ fuel ih =>
    rw [visited, visited, map_append, length_map, window, window, ← map_drop,
      ← map_take, ih]
    split <;> rfl

theorem visited_eq_of_covers (hsize : 0 < size) (xs : List α) {fuel : Nat}
    (hfuel : xs.length < fuel) {limit : Option Nat}
    (h : Covers limit base size xs.length) :
    visited base size xs fuel base = limited limit (xs.drop base) := by
  have hlong : (List.finRange xs.length).length < fuel := by simpa using hfuel
  have hpositions := (visited_eq_iff hsize (nodup_finRange xs.length)
    hlong limit).mpr (by simpa using h)
  have hxs : (List.finRange xs.length).map xs.get = xs := map_get_finRange xs
  rw [← hxs, visited_map, ← map_drop, limited_map, hpositions]

end Fuse.Foundation.Paging
