import Mathlib.Data.List.Sort

/-!
# First elements of sorted lists

Truncating the parts of a collection before merging them does not change its
first elements: the `n` least elements of a union are among the `n` least of
the parts.  Lists are sorted by `≤` and compared up to permutation, so ties may
be broken in any way.
-/

namespace Fuse.Foundation.TopN

open List
open scoped List

variable {K : Type} [LinearOrder K]

/-- `sorted` lists the elements of `xs` in order. -/
def SortOf (sorted xs : List K) : Prop :=
  sorted.Perm xs ∧ sorted.Pairwise (· ≤ ·)

theorem SortOf.unique {a b xs : List K} (ha : SortOf a xs) (hb : SortOf b xs) :
    a = b :=
  (ha.1.trans hb.1.symm).eq_of_pairwise (fun _ _ _ _ h h' =>
    le_antisymm h h') ha.2 hb.2

/-- `cut` is what is left of `part` when only its first `n` are kept. -/
def IsTop (n : Nat) (cut part : List K) : Prop :=
  ∃ sorted, SortOf sorted part ∧ cut = sorted.take n

section Keys

variable {α : Type} (key : α → K)

/-- `cut` has the first `n` elements of `part` in the order of the key. -/
def IsTopBy (n : Nat) (cut part : List α) : Prop :=
  ∃ sorted : List α, sorted.Perm part ∧
    (sorted.Pairwise fun a b => key a ≤ key b) ∧ cut = sorted.take n

theorem exists_sorted_by (xs : List α) :
    ∃ sorted : List α, sorted.Perm xs ∧ sorted.Pairwise fun a b =>
    key a ≤ key b := by
  have : Std.Total fun a b => key a ≤ key b := ⟨fun _ _ => le_total _ _⟩
  have : IsTrans α fun a b => key a ≤ key b := ⟨fun _ _ _ => le_trans⟩
  exact ⟨xs.insertionSort fun a b => key a ≤ key b,
    perm_insertionSort _ _, pairwise_insertionSort _ _⟩

variable {key} {n : Nat} {cuts parts : List (List α)}

theorem le_of_mem_take {sorted : List α} {d x : α}
    (hsorted : sorted.Pairwise fun a b => key a ≤ key b)
    (hcount : n ≤ sorted.countP (key · ≤ key d)) (hx : x ∈ sorted.take n) :
    key x ≤ key d := by
  induction sorted generalizing n with
  | nil => simp at hx
  | cons y ys ih =>
    cases n with
    | zero => simp at hx
    | succ n =>
      obtain ⟨hy, hys⟩ := pairwise_cons.mp hsorted
      -- some key is at most that of `d`, so the least one is
      have hyd : key y ≤ key d := by
        obtain ⟨z, hz, hzd⟩ :=
          countP_pos_iff.mp (Nat.lt_of_lt_of_le n.succ_pos hcount)
        rcases mem_cons.mp hz with rfl | hz
        · simpa using hzd
        · exact (hy z hz).trans (by simpa using hzd)
      rcases mem_cons.mp hx with rfl | hx
      · exact hyd
      · refine ih hys ?_ hx
        simpa [hyd] using hcount

theorem IsTopBy.length_eq {cut part : List α} (h : IsTopBy key n cut part) :
    cut.length = min n part.length := by
  obtain ⟨sorted, hperm, -, rfl⟩ := h
  rw [length_take, hperm.length_eq]

private theorem length_cuts_le (h : List.Forall₂ (IsTopBy key n) cuts parts) :
    cuts.flatten.length ≤ parts.flatten.length := by
  induction h with
  | nil => exact le_rfl
  | cons htop _ ih =>
    have := htop.length_eq
    rw [flatten_cons, flatten_cons, length_append, length_append]
    omega

theorem length_le_of_length_eq (h : List.Forall₂ (IsTopBy key n) cuts parts)
    (hlength : cuts.flatten.length = parts.flatten.length) :
    ∀ part ∈ parts, part.length ≤ n := by
  induction h with
  | nil => simp
  | cons htop hrest ih =>
    have hcut := htop.length_eq
    have hcuts := length_cuts_le hrest
    rw [flatten_cons, flatten_cons, length_append, length_append] at hlength
    intro part hpart
    rcases mem_cons.mp hpart with rfl | hpart
    · omega
    · exact ih (by omega) part hpart

/-- Before an element that is cut off there are `n` that are not. -/
theorem exists_rest (h : List.Forall₂ (IsTopBy key n) cuts parts) :
    ∃ rest, (cuts.flatten ++ rest).Perm parts.flatten ∧
      ∀ d ∈ rest, n ≤ cuts.flatten.countP (key · ≤ key d) := by
  induction h with
  | nil => exact ⟨[], .nil, by simp⟩
  | @cons cut part cuts parts htop _ ih =>
    obtain ⟨sorted, hperm, hsorted, rfl⟩ := htop
    obtain ⟨rest, hrest, hcount⟩ := ih
    refine ⟨sorted.drop n ++ rest, ?_, fun d hd => ?_⟩
    · calc sorted.take n ++ cuts.flatten ++ (sorted.drop n ++ rest)
          _ = sorted.take n ++ (cuts.flatten ++ sorted.drop n) ++
            rest := by simp
          _ ~ sorted.take n ++ (sorted.drop n ++ cuts.flatten) ++ rest :=
              (perm_append_comm.append_left _).append_right _
          _ = sorted ++ (cuts.flatten ++ rest) := by
              rw [← append_assoc, take_append_drop, append_assoc]
          _ ~ part ++ parts.flatten := hperm.append hrest
    · rw [flatten_cons, countP_append]
      rcases mem_append.mp hd with hd | hd
      · rw [← take_append_drop n sorted] at hsorted
        have hall : (sorted.take n).countP (key · ≤ key d) =
            (sorted.take n).length :=
          countP_eq_length.mpr fun a ha =>
            by simpa using (pairwise_append.mp hsorted).2.2 a ha d hd
        have hpos := length_pos_of_mem hd
        rw [length_drop] at hpos
        rw [hall, length_take]
        omega
      · exact (hcount d hd).trans (Nat.le_add_left ..)

/--
The first `n` elements of the cuts, in order, are the first `n` of an ordered
list of everything.
-/
theorem exists_whole_take (h : List.Forall₂ (IsTopBy key n) cuts parts)
    {small : List α}
    (hsmall : small.Perm cuts.flatten) (hsorted : small.Pairwise fun a b =>
      key a ≤ key b) :
    ∃ whole : List α, whole.Perm parts.flatten ∧
      (whole.Pairwise fun a b => key a ≤ key b) ∧
      whole.take n = small.take n := by
  obtain ⟨dropped, hdropped, hcount⟩ := exists_rest h
  obtain ⟨rest, hrest, hrestSorted⟩ :=
    exists_sorted_by key (small.drop n ++ dropped)
  refine ⟨small.take n ++ rest, ?_,
    pairwise_append.mpr ⟨hsorted.take, hrestSorted, ?_⟩, ?_⟩
  · calc small.take n ++ rest
        _ ~ small.take n ++ (small.drop n ++ dropped) := hrest.append_left _
        _ = small ++ dropped := by rw [← append_assoc, take_append_drop]
        _ ~ cuts.flatten ++ dropped := hsmall.append_right _
        _ ~ parts.flatten := hdropped
  · intro a ha b hb
    rcases mem_append.mp (hrest.mem_iff.mp hb) with hb | hb
    · rw [← take_append_drop n small] at hsorted
      exact (pairwise_append.mp hsorted).2.2 a ha b hb
    · exact le_of_mem_take hsorted (hsmall.countP_eq _ ▸ hcount b hb) ha
  · by_cases hn : n ≤ small.length
    · rw [take_append_of_le_length (by simp [hn]), take_take, min_self]
    -- nothing was cut off, so there is no rest
    have hnil : rest = [] := by
      cases dropped with
      | nil =>
        rw [append_nil, drop_eq_nil_of_le (by omega)] at hrest
        exact hrest.eq_nil
      | cons d dropped =>
        have hlength := (hcount d mem_cons_self).trans countP_le_length
        exact absurd (hsmall.length_eq ▸ hlength) hn
    rw [hnil, append_nil, take_take, min_self]

end Keys

/-- The first `n` of a union are the first `n` of the union of the cuts. -/
theorem take_sortOf_flatten {n : Nat} {cuts parts : List (List K)}
    {small large : List K}
    (h : List.Forall₂ (IsTop n) cuts parts) (hsmall : SortOf small cuts.flatten)
    (hlarge : SortOf large parts.flatten) : small.take n = large.take n := by
  have hkeyed : List.Forall₂ (IsTopBy id n) cuts parts :=
    h.imp fun _ _ ⟨sorted, hsorted, hcut⟩ =>
      ⟨sorted, hsorted.1, hsorted.2, hcut⟩
  obtain ⟨whole, hperm, hpairwise, htake⟩ :=
    exists_whole_take hkeyed hsmall.1 hsmall.2
  rw [← htake, SortOf.unique ⟨hperm, hpairwise⟩ hlarge]

end Fuse.Foundation.TopN
