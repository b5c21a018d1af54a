import Mathlib.Data.List.Pairwise
import Mathlib.Data.List.Sort

/-!
# Lexicographic orders by keys

A list of keys, each an index with a direction, compares families of values
from the left.  `Leads` decides whether listing families by some columns, all
ascending, also lists them in the order of the keys.

A stable sort lists elements with equal keys in the order in which it found
them.  Selecting elements before or after such a sort is the same.
-/

namespace Fuse.Foundation.KeyOrder

open List

theorem related_of_mem {A : Type} {R : A → A → Prop} {l : List A}
    (h : l.Pairwise R) {x y : A}
    (hx : x ∈ l) (hy : y ∈ l) (hne : x ≠ y) : R x y ∨ R y x := by
  have : Std.Symm fun x y => R x y ∨ R y x := ⟨fun _ _ => Or.symm⟩
  have hboth : l.Pairwise fun x y => R x y ∨ R y x := h.imp Or.inl
  exact hboth.forall hx hy hne

variable {I A : Type} [LinearOrder A]

/-- One value comes before another; `true` is the descending direction. -/
def Precedes (descending : Bool) (x y : A) : Prop :=
  if descending then y < x else x < y

/-- `a` does not come after `b` when they are compared by the keys. -/
def Before : List (I × Bool) → (I → A) → (I → A) → Prop
  | [], _, _ => True
  | (i, d) :: keys, a, b =>
    Precedes d (a i) (b i) ∨ a i = b i ∧ Before keys a b

def ascending (columns : List I) : List (I × Bool) :=
  columns.map fun i => (i, false)

variable {keys : List (I × Bool)} {a b : I → A}

theorem before_cons_self {c : I} (d : Bool) (h : a c = b c) :
    Before ((c, d) :: keys) a b ↔ Before keys a b := by
  have hirrefl : ¬ Precedes d (b c) (b c) := by cases d <;> simp [Precedes]
  simp [Before, h, hirrefl]

theorem before_congr {a a' b b' : I → A}
    (h : ∀ key ∈ keys, a key.1 = a' key.1 ∧ b key.1 = b' key.1) :
    Before keys a b ↔ Before keys a' b' := by
  induction keys with
  | nil => exact Iff.rfl
  | cons key keys ih =>
    obtain ⟨ha, hb⟩ := h key (by simp)
    have hrest := ih fun k hk => h k (by simp [hk])
    simp [Before, ha, hb, hrest]

theorem before_comp {B : Type} [LinearOrder B] {f : A → B} (hf : StrictMono f)
    (keys : List (I × Bool)) (a b : I → A) :
    Before keys (fun i => f (a i)) (fun i => f (b i)) ↔ Before keys a b := by
  induction keys with
  | nil => exact Iff.rfl
  | cons key keys ih =>
    obtain ⟨i, d⟩ := key
    simp only [Before, Precedes, hf.lt_iff_lt, hf.injective.eq_iff, ih]

variable [DecidableEq I]

def without (c : I) (keys : List (I × Bool)) : List (I × Bool) :=
  keys.filter (·.1 ≠ c)

theorem before_without {c : I} (h : a c = b c) (keys : List (I × Bool)) :
    Before (without c keys) a b ↔ Before keys a b := by
  induction keys with
  | nil => exact Iff.rfl
  | cons key keys ih =>
    obtain ⟨i, d⟩ := key
    by_cases hi : i = c
    · subst hi
      rw [before_cons_self d h, ← ih, without, filter_cons_of_neg (by simp)]
      rfl
    · rw [without, filter_cons_of_pos (by simpa using hi)]
      exact or_congr_right (and_congr_right fun _ => ih)

/--
The keys, without those on a column that came before, are the columns from the
left, ascending, as far as both go.
-/
def Leads : List I → List (I × Bool) → Prop
  | [], _ => True
  | _ :: _, [] => True
  | c :: cs, (i, d) :: keys => i = c ∧ d = false ∧ Leads cs (without c keys)

instance decidableLeads : (columns : List I) → (keys : List (I × Bool)) →
    Decidable (Leads columns keys)
  | [], _ => isTrue trivial
  | _ :: _, [] => isTrue trivial
  | c :: cs, (i, d) :: keys =>
    have := decidableLeads cs (without c keys)
    inferInstanceAs (Decidable (i = c ∧ d = false ∧ _))

theorem before_of_leads {columns : List I} (hleads : Leads columns keys)
    (hbefore : Before (ascending columns) a b)
    (hdiffer : ∃ c ∈ columns, a c ≠ b c) : Before keys a b := by
  induction columns generalizing keys with
  | nil =>
    obtain ⟨c, hc, -⟩ := hdiffer
    cases hc
  | cons c cs ih =>
    cases keys with
    | nil => trivial
    | cons key keys =>
      obtain ⟨i, d⟩ := key
      obtain ⟨rfl, rfl, hleads⟩ := hleads
      rcases hbefore with hlt | ⟨heq, hbefore⟩
      · exact .inl hlt
      -- the first column does not tell them apart, so another one does
      refine .inr ⟨heq, (before_without heq keys).mp (ih hleads hbefore ?_)⟩
      obtain ⟨c, hc, hne⟩ := hdiffer
      rcases mem_cons.mp hc with rfl | hc
      · exact absurd heq hne
      · exact ⟨c, hc, hne⟩

theorem exists_not_before {low high : A} (hlt : low < high) {columns : List I}
    (hnodup : columns.Nodup) (hleads : ¬ Leads columns keys) :
    ∃ a b : I → A, Before (ascending columns) a b ∧ (∃ c ∈ columns, a c ≠ b c) ∧
    ¬ Before keys a b ∧ ∀ i, i ∉ columns → i ∉ keys.map (·.1) → a i = b i := by
  induction columns generalizing keys with
  | nil => exact absurd trivial hleads
  | cons c cs ih =>
    cases keys with
    | nil => exact absurd trivial hleads
    | cons key keys =>
      obtain ⟨i, d⟩ := key
      obtain ⟨hc, hcs⟩ := nodup_cons.mp hnodup
      by_cases hfirst : i = c ∧ d = false
      · obtain ⟨rfl, rfl⟩ := hfirst
        have hrest : ¬ Leads cs (without i keys) :=
          fun h => hleads ⟨rfl, rfl, h⟩
        obtain ⟨a, b, hbefore, ⟨c, hmem, hne⟩, hnot, hsame⟩ := ih hcs hrest
        have heq : a i = b i := hsame i hc (by simp [without])
        refine ⟨a, b, .inr ⟨heq, hbefore⟩, ⟨c, by simp [hmem], hne⟩, ?_, ?_⟩
        · rwa [before_cons_self _ heq, ← before_without heq]
        · intro j hj hkeys
          refine hsame j (fun h => hj (by simp [h])) fun h => hkeys ?_
          exact mem_cons_of_mem _ (map_subset _ (filter_sublist.subset) h)
      · -- let the first key run against the first column
        refine ⟨fun j => if j ≠ c ∧ j = i ∧ d = false then high else low,
          fun j => if j = c ∨ j = i ∧ d = true then high else low,
          .inl (by simpa [Precedes] using hlt),
          ⟨c, by simp, by simpa using hlt.ne⟩, ?_, ?_⟩
        · cases d <;> simp_all [Before, Precedes, hlt.ne, hlt.ne', hlt.not_gt]
        · intro j hj hkeys
          simp_all

theorem countP_eq_one_of_strict {α K : Type} [LinearOrder K] {key : α → K}
    {same : α → Bool}
    {l : List α} {kept : α} (hstrict : l.Pairwise fun a b => key a < key b)
    (hkept : kept ∈ l)
    (hsame : ∀ a, same a = true ↔ key a = key kept) : l.countP same = 1 := by
  have hnodup : (l.map key).Nodup := pairwise_map.mpr (hstrict.imp ne_of_lt)
  rw [← count_eq_one_of_mem hnodup (mem_map_of_mem hkept), count, countP_map]
  exact countP_congr fun a _ => by simp [hsame]

end Fuse.Foundation.KeyOrder

namespace Fuse.Foundation.StableSort

open List

variable {α K : Type} [LinearOrder K] (key : α → K)

def sortBy (l : List α) : List α := l.insertionSort fun a b => key a ≤ key b

variable {key}

theorem sortBy_of_sorted {l : List α}
    (h : l.Pairwise fun a b => key a ≤ key b) : sortBy key l = l :=
  h.insertionSort_eq

theorem sortBy_pair_of_lt {a b : α} (h : key b < key a) :
    sortBy key [a, b] = [b, a] := by
  simp [sortBy, h.not_ge]

private theorem pairwise_sortBy (l : List α) :
    (sortBy key l).Pairwise fun a b => key a ≤ key b := by
  have : Std.Total fun a b : α => key a ≤ key b := ⟨fun _ _ => le_total _ _⟩
  have : IsTrans α fun a b => key a ≤ key b := ⟨fun _ _ _ => le_trans⟩
  exact pairwise_insertionSort _ l

private theorem sortBy_sublist {as bs : List α} (h : as.Sublist bs) :
    (sortBy key as).Sublist (sortBy key bs) := by
  have : IsTrans α fun a b => key a ≤ key b := ⟨fun _ _ _ => le_trans⟩
  induction h with
  | slnil => exact .slnil
  | cons b _ ih => exact ih.trans (sublist_orderedInsert ..)
  | cons_cons b _ ih => exact ih.orderedInsert_sublist b (pairwise_sortBy _)

theorem filter_sortBy (p : α → Bool) (l : List α) :
    (sortBy key l).filter p = sortBy key (l.filter p) := by
  have hperm : ∀ l, (sortBy key l).Perm l := perm_insertionSort _
  have hsub : (sortBy key (l.filter p)).Sublist (sortBy key l) :=
    sortBy_sublist filter_sublist
  have hself : (sortBy key (l.filter p)).filter p = sortBy key (l.filter p) :=
    filter_eq_self.mpr fun a ha => (mem_filter.mp ((hperm _).mem_iff.mp ha)).2
  have hkept := hself ▸ hsub.filter p
  exact (hkept.eq_of_length ((hperm _).trans
    ((hperm l).filter p).symm).length_eq).symm

end Fuse.Foundation.StableSort
