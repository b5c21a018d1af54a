import Mathlib.Data.Multiset.Bind

/-!
# Lists as bags

Two ways to regroup a concatenation that keep its elements with their
multiplicities: by a key of its parts, and by exchanging the order of two
nested concatenations.

The joins of two bags are given by a relation between their members.  A result
is a pair of members, with nothing in the place of a partner that is missing.
-/

namespace Fuse.Foundation.Bags

open List

variable {α β κ : Type}

theorem flatMap_flatMap_perm (as : List α) (bs : List κ) (f : α → κ → List β) :
    (as.flatMap fun a => bs.flatMap (f a)).Perm
      (bs.flatMap fun b => as.flatMap fun a => f a b) := by
  rw [← Multiset.coe_eq_coe]
  simp only [← Multiset.coe_bind]
  exact Multiset.bind_bind _ _

end Fuse.Foundation.Bags

namespace Fuse.Foundation.BagJoin

open List

variable {α β : Type} (same : α → β → Bool) (as : List α) (bs : List β)

def matched : List (Option α × Option β) :=
  bs.flatMap fun b => (as.filter (same · b)).map fun a => (some a, some b)

def leftOnly : List (Option α × Option β) :=
  (as.filter fun a => bs.all (!same a ·)).map fun a => (some a, none)

def rightOnly : List (Option α × Option β) :=
  (bs.filter fun b => as.all (!same · b)).map fun b => (none, some b)

def rightMatched : List (Option α × Option β) :=
  (bs.filter fun b => as.any (same · b)).map fun b => (none, some b)

theorem flatMap_ite {γ : Type} (p : β → Bool) (f : β → γ) :
    (bs.flatMap fun b => if p b then [f b] else []) = (bs.filter p).map f := by
  induction bs with
  | nil => rfl
  | cons b bs ih =>
    cases hb : p b <;> simp [hb, ih]

theorem flatMap_filter_of_nil {γ : Type} {keep : β → Bool} {f : β → List γ}
    (h : ∀ b ∈ bs, keep b = false → f b = []) :
    (bs.filter keep).flatMap f = bs.flatMap f := by
  induction bs with
  | nil => rfl
  | cons b bs ih =>
    have htail := ih fun c hc => h c (mem_cons_of_mem _ hc)
    cases hkeep : keep b with
    | true => simp [hkeep, htail]
    | false => simp [hkeep, htail, h b mem_cons_self hkeep]

theorem swap_matched :
    ((matched (fun b a => same a b) bs as).map Prod.swap).Perm
    (matched same as bs) := by
  induction as with
  | nil => simp [matched]
  | cons a as ih =>
    have hsplit : matched same (a :: as) bs = bs.flatMap fun b =>
        (if same a b then [(some a, some b)] else []) ++
          (as.filter (same · b)).map fun a => (some a, some b) := by
      refine flatMap_congr fun b _ => ?_
      cases hab : same a b <;> simp [hab]
    rw [hsplit]
    refine List.Perm.trans ?_ (flatMap_append_perm bs _ _)
    rw [flatMap_ite]
    have hhead : matched (fun b a => same a b) bs (a :: as) =
        (bs.filter (same a)).map (fun b => (some b, some a)) ++
          matched (fun b a => same a b) bs as := rfl
    rw [hhead, map_append, map_map]
    exact ih.append_left _

theorem swap_rightOnly :
    (rightOnly (fun b a => same a b) bs as).map Prod.swap =
      leftOnly same as bs := by
  simp [rightOnly, leftOnly]

theorem outer_perm : (bs.flatMap fun b =>
        if as.filter (same · b) = [] then [(none, some b)]
        else (as.filter (same · b)).map fun a => (some a, some b)).Perm
      (matched same as bs ++ rightOnly same as bs) := by
  have hsplit : (bs.flatMap fun b =>
      if as.filter (same · b) = [] then [(none, some b)]
      else (as.filter (same · b)).map fun a => (some a, some b)) =
      bs.flatMap fun b =>
        ((as.filter (same · b)).map fun a => (some a, some b)) ++
          if as.all (!same · b) then [(none, some b)] else [] := by
    refine flatMap_congr fun b _ => ?_
    by_cases hb : as.filter (same · b) = []
    · have hall : as.all (!same · b) = true := by simpa [filter_eq_nil_iff]
        using hb
      simp [hb, hall]
    · have hsome : as.all (!same · b) = false := by simpa [filter_eq_nil_iff]
        using hb
      simp [hb, hsome]
  rw [hsplit, rightOnly, ← flatMap_ite]
  exact (flatMap_append_perm bs _ _).symm

end Fuse.Foundation.BagJoin

namespace Fuse.Foundation.Bags

open List BagJoin

variable {α β κ : Type} [DecidableEq κ]

theorem flatMap_perm_flatMap_filter (key : α → κ) (f : α → List β)
    {keys : List κ}
    (hnodup : keys.Nodup) {as : List α} (hkeys : ∀ a ∈ as, key a ∈ keys) :
    (as.flatMap f).Perm (keys.flatMap fun k =>
      (as.filter (key · = k)).flatMap f) := by
  -- each element under its own key alone
  have hown : ∀ a ∈ as, f a = keys.flatMap fun k =>
      if key a = k then f a else [] := by
    intro a ha
    have hothers : ∀ k ∈ keys, decide (k = key a) = false →
        (if key a = k then f a else []) = [] :=
      fun k _ hk => if_neg fun heq => of_decide_eq_false hk heq.symm
    rw [← flatMap_filter_of_nil keys hothers, filter_eq,
      count_eq_one_of_mem hnodup (hkeys a ha)]
    simp
  rw [flatMap_congr hown]
  refine (flatMap_flatMap_perm as keys _).trans
    (.of_eq (flatMap_congr fun k _ => ?_))
  have hothers : ∀ a ∈ as, decide (key a = k) = false →
      (if key a = k then f a else []) = [] :=
    fun a _ ha => if_neg (of_decide_eq_false ha)
  rw [← flatMap_filter_of_nil as hothers]
  exact flatMap_congr fun a ha => if_pos (by simpa using (mem_filter.mp ha).2)

end Fuse.Foundation.Bags
